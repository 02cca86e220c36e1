import ClassFile.Script

/-!
# Module declarations

A module declaration is told group by group: the main class, the packages, then what the module
requires, exports, opens, uses and provides.
-/

namespace ClassFile

/-- A module declaration. -/
structure ModuleTree where
  header : ModuleHeader
  mainClass? : Option Text := none
  packages : List Text := []
  requires : List Requirement := []
  exports : List Relation := []
  opens : List Relation := []
  uses : List Text := []
  provides : List Provision := []
  deriving DecidableEq, Inhabited

namespace ModuleTree

/-- The events of a module scope. -/
def moduleItem? : Item → Option ModuleItem
  | .event (.moduleItem item) => some item
  | _ => none

/-- The declaration with the given head and contents.  Of two main classes the later counts. -/
def ofEvents (header : ModuleHeader) (events : List ModuleItem) : ModuleTree where
  header
  mainClass? := (events.filterMap fun
    | .mainClass name => some name
    | _ => none).getLast?
  packages := events.filterMap fun
    | .package name => some name
    | _ => none
  requires := events.filterMap fun
    | .requires requirement => some requirement
    | _ => none
  exports := events.filterMap fun
    | .exports relation => some relation
    | _ => none
  opens := events.filterMap fun
    | .opens relation => some relation
    | _ => none
  uses := events.filterMap fun
    | .uses service => some service
    | _ => none
  provides := events.filterMap fun
    | .provides provision => some provision
    | _ => none

/-- The declaration that an item tells about. -/
def ofItem? : Item → Option ModuleTree
  | .scope (.moduleScope header) body => some (ofEvents header (body.filterMap moduleItem?))
  | _ => none

/-- The contents of a declaration, group by group. -/
def events (tree : ModuleTree) : List ModuleItem :=
  tree.mainClass?.toList.map .mainClass ++ tree.packages.map .package ++
    tree.requires.map .requires ++ tree.exports.map .exports ++ tree.opens.map .opens ++
    tree.uses.map .uses ++ tree.provides.map .provides

/-- What is told about a declaration. -/
def item (tree : ModuleTree) : Item :=
  .scope (.moduleScope tree.header) (tree.events.map fun event => .event (.moduleItem event))

end ModuleTree

end ClassFile
