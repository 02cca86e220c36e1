import ClassFile.InstructionList.Workspace
import ClassFile.Proofs.InstructionList.Walks

/-!
# What edits mean

An edit changes sequences of elements with ids (`Contents.Does`).  A new element gets an id that never
designated another one; an id that designates nothing in a list is refused there.

What can be seen of a list that holds a sequence is said by `InstructionList.Shows`, and of a whole
workspace by `Workspace.Shows`.
-/

namespace ClassFile

open Sequence Workspace

/-- The sequences of some lists, and the ids whose elements were taken out. -/
structure Contents where
  lists : List Sequence
  gone : List NodeId

namespace Contents

/-- Whether an id never designated an element. -/
def Fresh (contents : Contents) (id : NodeId) : Prop :=
  id ∉ contents.gone ∧ ∀ sequence ∈ contents.lists, id ∉ ids sequence

/-- The contents with another sequence in place of the one with a number. -/
def put (contents : Contents) (number : Nat) (sequence : Sequence) : Contents :=
  { contents with lists := contents.lists.set number sequence }

/-- The contents with one more sequence. -/
def collect (contents : Contents) (sequence : Sequence) : Contents :=
  { contents with lists := contents.lists ++ [sequence] }

/-- The contents with more ids whose elements were taken out. -/
def without (contents : Contents) (taken : List NodeId) : Contents :=
  { contents with gone := taken ++ contents.gone }

/-- Where an edit puts a new element: behind `before` and in front of `after`. -/
inductive Inserts : Edit → Nat → Sequence → InstructionTree → Sequence → Prop where
  | add {number sequence tree} : Inserts (.add number tree) number sequence tree []
  | insert {number sequence tree} : Inserts (.insert number tree) number [] tree sequence
  | before {number anchor old before tree after} :
      Inserts (.before number anchor tree) number before tree ((anchor, old) :: after)
  | after {number anchor old before tree after} :
      Inserts (.after number anchor tree) number (before ++ [(anchor, old)]) tree after

/-- Where an edit puts the elements of the list `other`. -/
inductive Moves : Edit → Nat → Nat → Sequence → Sequence → Prop where
  | appendList {number other sequence} :
      Moves (.appendList number other) number other sequence []
  | insertList {number other sequence} :
      Moves (.insertList number other) number other [] sequence
  | listBefore {number other anchor old before after} :
      Moves (.listBefore number anchor other) number other before ((anchor, old) :: after)
  | listAfter {number other anchor old before after} :
      Moves (.listAfter number anchor other) number other (before ++ [(anchor, old)]) after

/-- The numbers of the lists that an edit is about. -/
def numbers : Edit → List Nat
  | .collect _ => []
  | .clone number | .add number _ | .insert number _ | .before number _ _ | .after number _ _
  | .remove number _ | .set number _ _ | .change number _ _ | .clear number | .get number _
  | .indexOf number _ => [number]
  | .appendList number other | .insertList number other | .listBefore number _ other
  | .listAfter number _ other => [number, other]

/-- The id that an edit is given, and the number of the list in which it looks for it. -/
def given? : Edit → Option (Nat × NodeId)
  | .before number id _ | .after number id _ | .remove number id | .set number id _
  | .change number id _ | .listBefore number id _ | .listAfter number id _ | .indexOf number id =>
      some (number, id)
  | _ => none

/-- What an edit answers and what it leaves. -/
inductive Does (contents : Contents) : Edit → Except Panic Answer → Contents → Prop where
  | collect {trees : List InstructionTree} {news : List NodeId}
      (length : news.length = trees.length) (distinct : news.Nodup)
      (fresh : ∀ id ∈ news, contents.Fresh id) :
      Does contents (.collect trees) (.ok (.list contents.lists.length))
        (contents.collect (news.zip trees))
  | collectFull {trees : List InstructionTree} {arena : Nat}
      (many : Arena.maxPlaces < trees.length) :
      Does contents (.collect trees) (.error (.arenaFull arena)) contents
  | clone {number : Nat} {sequence : Sequence} {news : List NodeId}
      (here : contents.lists[number]? = some sequence)
      (length : news.length = sequence.length) (distinct : news.Nodup)
      (fresh : ∀ id ∈ news, contents.Fresh id) :
      Does contents (.clone number) (.ok (.list contents.lists.length))
        (contents.collect (news.zip (sequence.map Prod.snd)))
  | cloneFull {number : Nat} {sequence : Sequence} {arena : Nat}
      (here : contents.lists[number]? = some sequence)
      (many : Arena.maxPlaces < sequence.length) :
      Does contents (.clone number) (.error (.arenaFull arena)) contents
  | insert {edit : Edit} {number : Nat} {before after : Sequence} {tree : InstructionTree}
      {id : NodeId} (inserts : Inserts edit number before tree after)
      (here : contents.lists[number]? = some (before ++ after)) (fresh : contents.Fresh id) :
      Does contents edit (.ok (.node id)) (contents.put number (before ++ (id, tree) :: after))
  | insertFull {edit : Edit} {number arena : Nat} {before after : Sequence} {tree : InstructionTree}
      (inserts : Inserts edit number before tree after)
      (here : contents.lists[number]? = some (before ++ after))
      (many : Arena.maxPlaces ≤ (before ++ after).length) :
      Does contents edit (.error (.arenaFull arena)) contents
  | remove {number : Nat} {before after : Sequence} {id : NodeId} {tree : InstructionTree}
      (here : contents.lists[number]? = some (before ++ (id, tree) :: after)) :
      Does contents (.remove number id) (.ok (.element tree))
        ((contents.put number (before ++ after)).without [id])
  | set {number : Nat} {before after : Sequence} {id : NodeId} {old tree : InstructionTree}
      (here : contents.lists[number]? = some (before ++ (id, old) :: after)) :
      Does contents (.set number id tree) (.ok (.element old))
        (contents.put number (before ++ (id, tree) :: after))
  | change {number : Nat} {before after : Sequence} {id : NodeId} {old : InstructionTree}
      {change : InstructionTree → InstructionTree}
      (here : contents.lists[number]? = some (before ++ (id, old) :: after)) :
      Does contents (.change number id change) (.ok .done)
        (contents.put number (before ++ (id, change old) :: after))
  | clear {number : Nat} {sequence : Sequence}
      (here : contents.lists[number]? = some sequence) :
      Does contents (.clear number) (.ok .done) ((contents.put number []).without (ids sequence))
  | move {edit : Edit} {number other : Nat} {before between after : Sequence}
      (moves : Moves edit number other before after) (different : number ≠ other)
      (here : contents.lists[number]? = some (before ++ after))
      (there : contents.lists[other]? = some between) :
      Does contents edit (.ok .done)
        ((contents.put number (before ++ between ++ after)).put other [])
  | stay {edit : Edit} {number : Nat} {before after : Sequence}
      (moves : Moves edit number number before after)
      (here : contents.lists[number]? = some (before ++ after)) :
      Does contents edit (.ok .done) contents
  | get {number position : Nat} {sequence : Sequence}
      (here : contents.lists[number]? = some sequence) :
      Does contents (.get number position)
        (match (ids sequence)[position]? with
        | some id => .ok (.node id)
        | none => .error (.listPosition position sequence.length)) contents
  | indexOf {number : Nat} {before after : Sequence} {id : NodeId} {tree : InstructionTree}
      (here : contents.lists[number]? = some (before ++ (id, tree) :: after)) :
      Does contents (.indexOf number id) (.ok (.position before.length)) contents
  /-- An id that is not in the list is refused. -/
  | refuse {edit : Edit} {number : Nat} {id : NodeId} {sequence : Sequence}
      (given : given? edit = some (number, id)) (here : contents.lists[number]? = some sequence)
      (absent : id ∉ ids sequence) (lists : ∀ other ∈ numbers edit, other < contents.lists.length) :
      Does contents edit (.error .notInList) contents
  | noList {edit : Edit} {number : Nat} (named : number ∈ numbers edit)
      (missing : contents.lists.length ≤ number) :
      Does contents edit (.error .outOfRange) contents

end Contents

namespace InstructionList

/-- What can be seen of a list with the elements of a sequence. -/
structure Shows (list : InstructionList) (sequence : Sequence) : Prop where
  length : list.length = sequence.length
  forwards : Passes list.next list.first? (ids sequence)
  backwards : Passes list.previous list.last? (ids sequence).reverse
  contains : ∀ id, list.contains id = true ↔ id ∈ ids sequence
  node : ∀ {id tree}, (id, tree) ∈ sequence → list.node id = .ok tree
  refuses : ∀ {id}, id ∉ ids sequence → list.node id = .error .notInList ∧
    list.next id = .error .notInList ∧ list.previous id = .error .notInList
  get : ∀ position, (list.get position).1 =
    match (ids sequence)[position]? with
    | some id => .ok id
    | none => .error (.listPosition position sequence.length)
  indexOf : ∀ position id, (list.indexOf id).1 = .ok position ↔ (list.get position).1 = .ok id
  walks : ∀ sides, ∃ rest, list.walk.steps sides = .ok (taken sequence sides, rest) ∧
    rest.remaining = sequence.length - sides.length ∧
    (rest.remaining = 0 → (taken sequence sides).reduceOption.Perm sequence)

end InstructionList

namespace Workspace

/-- What can be seen of a workspace with some contents.  An element is in one list only, and one that
was taken out in none. -/
structure Shows (workspace : Workspace) (contents : Contents) : Prop where
  count : workspace.lists.length = contents.lists.length
  lists : ∀ {number : Nat} {list : InstructionList} {sequence : Sequence},
    workspace.lists[number]? = some list → contents.lists[number]? = some sequence →
      list.Shows sequence
  living : ∀ {number : Nat} {sequence : Sequence} {id : NodeId},
    contents.lists[number]? = some sequence → id ∈ ids sequence →
      ∀ {other : Nat} {list : InstructionList}, workspace.lists[other]? = some list →
        (list.contains id = true ↔ other = number)
  gone : ∀ id ∈ contents.gone, ∀ list ∈ workspace.lists, list.contains id = false

/-- Whether edits do step by step what they mean, and each leaves what it should show. -/
inductive Follows : Workspace → Contents → List Edit → Prop where
  | done {workspace : Workspace} {contents : Contents} (shows : workspace.Shows contents) :
      Follows workspace contents []
  | step {workspace : Workspace} {contents next : Contents} {edit : Edit} {rest : List Edit}
      (shows : workspace.Shows contents) (does : contents.Does edit (workspace.edit edit).1 next)
      (follows : Follows (workspace.edit edit).2 next rest) :
      Follows workspace contents (edit :: rest)

end Workspace

end ClassFile
