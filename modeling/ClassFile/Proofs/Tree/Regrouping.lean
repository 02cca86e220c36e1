import Mathlib.Data.List.Perm.Basic
import ClassFile.Script
import ClassFile.Tree.Member

/-!
# Regrouping

The type annotations of a body come in groups: those of its handlers, of an instruction, and of its local
variables.  Two stories are regroupings of one another if they differ only in the order of annotations
inside such a group; the annotations of a group stand next to one another.
-/

namespace ClassFile

/-- Whether two items that stand next to one another are type annotations of one group. -/
inductive Item.SameGroup : Item → Item → Prop where
  | handlers (use use' : TypeUse) (body body' : List Item) :
      SameGroup (.scope (.annotateTryCatch use) body) (.scope (.annotateTryCatch use') body')
  | instruction (use use' : TypeUse) (body body' : List Item) :
      SameGroup (.scope (.annotateInstruction use) body) (.scope (.annotateInstruction use') body')
  | variables (use use' : TypeUse) (ranges ranges' : List LabelRange) (body body' : List Item) :
      SameGroup (.scope (.annotateLocal use ranges) body) (.scope (.annotateLocal use' ranges') body')

/-- Whether two stories differ at most in the order of the annotations inside the groups of a body. -/
inductive Regrouped : List Item → List Item → Prop where
  | nil : Regrouped [] []
  | cons (item : Item) {items others : List Item} (behind : Regrouped items others) :
      Regrouped (item :: items) (item :: others)
  | method (header : MethodHeader) {body body' items others : List Item} (inside : Regrouped body body')
      (behind : Regrouped items others) :
      Regrouped (.scope (.method header) body :: items) (.scope (.method header) body' :: others)
  | swap {first second : Item} (group : first.SameGroup second) (rest : List Item) :
      Regrouped (first :: second :: rest) (second :: first :: rest)
  | trans {first second third : List Item} (here : Regrouped first second)
      (behind : Regrouped second third) : Regrouped first third

namespace Regrouped

variable {items others later later' : List Item}

theorem refl (items : List Item) : Regrouped items items := by
  induction items with
  | nil => exact .nil
  | cons item rest ih => exact .cons item ih

theorem append_right (same : Regrouped items others) (rest : List Item) :
    Regrouped (items ++ rest) (others ++ rest) := by
  induction same with
  | nil => exact refl rest
  | cons item _ ih => exact .cons item ih
  | method header inside _ _ ih => exact .method header inside ih
  | swap group behind => exact .swap group (behind ++ rest)
  | trans _ _ here behind => exact here.trans behind

theorem append_left (front : List Item) (same : Regrouped items others) :
    Regrouped (front ++ items) (front ++ others) := by
  induction front with
  | nil => exact same
  | cons item front ih => exact .cons item ih

theorem append (same : Regrouped items others) (behind : Regrouped later later') :
    Regrouped (items ++ later) (others ++ later') :=
  (same.append_right later).trans (behind.append_left others)

/-- The annotations of a group may come in any order. -/
theorem of_perm (perm : items.Perm others)
    (group : ∀ first ∈ items, ∀ second ∈ items, first.SameGroup second) : Regrouped items others := by
  induction perm with
  | nil => exact .nil
  | cons item perm ih =>
      apply Regrouped.cons
      apply ih
      intro first isFirst second isSecond
      exact group first (List.mem_cons_of_mem _ isFirst) second (List.mem_cons_of_mem _ isSecond)
  | swap first second rest => exact .swap (group second (by simp) first (by simp)) rest
  | trans here _ ih ihBehind =>
      apply (ih group).trans
      apply ihBehind
      intro first isFirst second isSecond
      exact group first (here.mem_iff.mpr isFirst) second (here.mem_iff.mpr isSecond)

end Regrouped

/-- The visible ones first is only another order. -/
theorem visibleFirst_perm {α : Type} (visible : α → Bool) (entries : List α) :
    (visibleFirst visible entries).Perm entries :=
  List.filter_append_perm visible entries

end ClassFile
