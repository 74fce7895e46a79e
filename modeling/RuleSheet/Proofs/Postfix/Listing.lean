import RuleSheet.Proofs.Postfix.Tree

/-!
# Which sequences have a value

A postfix sequence is the postorder of at most one tree. Running it is the same as reading
it back into that tree: where the one lacks an operand, or has one too many at the end, the
other does too. So the sequences with a value are the postorders, each has the value of its
tree, and all others are malformed.
-/
namespace RuleSheet

namespace Postfix

/-- Reads a sequence as a tree, on a stack of the trees that were read before, the last one
first. -/
def tree? : List Item → List Tree → Option Tree
  | [], [t] => some t
  | [], _ => none
  | .value x :: rest, stack => tree? rest (.value x :: stack)
  | .function f :: rest, e :: stack => tree? rest (.function f e :: stack)
  | .operator op :: rest, r :: l :: stack => tree? rest (.operator op l r :: stack)
  | _ :: _, _ => none

/-- The sequence from which the trees on a stack were read. -/
def listing : List Tree → List Item
  | [] => []
  | t :: below => listing below ++ t.postorder

@[simp] theorem tree?_postorder (t : Tree) (rest : List Item) (stack : List Tree) :
    tree? (t.postorder ++ rest) stack = tree? rest (t :: stack) := by
  induction t generalizing rest stack with
  | value x => rfl
  | function f e ih =>
      rw [Tree.postorder, List.append_assoc, ih]
      rfl
  | operator op l r ihl ihr =>
      rw [Tree.postorder, List.append_assoc, List.append_assoc, ihl, ihr]
      rfl

/-- What is read as a tree is the postorder of the tree, the part on the stack included. -/
theorem postorder_of_tree? {items : List Item} {stack : List Tree} {t : Tree}
    (h : tree? items stack = some t) : t.postorder = listing stack ++ items := by
  fun_induction tree? items stack with
  | case1 e =>
      obtain rfl : e = t := Option.some.inj h
      exact (List.append_nil _).symm
  | case2 => cases h
  | case3 x rest stack ih =>
      rw [ih h, listing, List.append_assoc]
      rfl
  | case4 f rest e stack ih =>
      rw [ih h, listing, listing, Tree.postorder]
      simp
  | case5 op rest r l stack ih =>
      rw [ih h, listing, listing, listing, Tree.postorder]
      simp
  | case6 => cases h

theorem tree?_eq_some_iff {items : List Item} {t : Tree} :
    tree? items [] = some t ↔ t.postorder = items := by
  constructor
  · exact postorder_of_tree?
  · rintro rfl
    have hread := tree?_postorder t [] []
    rw [List.append_nil] at hread
    exact hread

/-- Running is evaluating what is read, from any stack of trees. Where nothing is read, an
operand is missing, or the run ends on no number or on more than one. -/
theorem run_eval (items : List Item) (stack : List Tree) :
    (run items (stack.map Tree.eval)).1 =
      ((tree? items stack).map Tree.eval).elim (.error .malformedExpression) .ok := by
  fun_induction tree? items stack with
  | case1 => rfl
  | case2 stack hstack =>
      match stack with
      | [] => rfl
      | [t] => exact absurd rfl (hstack t)
      | _ :: _ :: _ => rfl
  | case3 x rest stack ih => exact ih
  | case4 f rest e stack ih => exact ih
  | case5 op rest r l stack ih => exact ih
  | case6 item rest stack hvalue hfunction hoperator =>
      match item, stack with
      | .value x, _ => exact absurd rfl (hvalue x)
      | .function _, [] => rfl
      | .function f, e :: below => exact absurd rfl (hfunction f e below rfl)
      | .operator _, [] => rfl
      | .operator _, [_] => rfl
      | .operator op, r :: l :: below => exact absurd rfl (hoperator op r l below rfl)

theorem value_eq (items : List Item) :
    value items = ((tree? items []).map Tree.eval).elim (.error .malformedExpression) .ok :=
  run_eval items []

/-- A sequence has a value exactly when it is the postorder of a tree, and its value is that
of the tree; any other sequence is malformed. There is only one such tree, and what the
sequence prints is what the tree prints when its left operands are evaluated first. -/
theorem value_iff_postorder (items : List Item) :
    (∀ x, value items = .ok x ↔ ∃ t : Tree, t.postorder = items ∧ t.eval = x) ∧
    (value items = .error .malformedExpression ↔ ¬∃ t : Tree, t.postorder = items) ∧
    ∀ t : Tree, t.postorder = items →
      printed items = t.printed ∧ ∀ t' : Tree, t'.postorder = items → t' = t := by
  have hread (t : Tree) : t.postorder = items ↔ tree? items [] = some t := tree?_eq_some_iff.symm
  refine ⟨fun x => ?_, ?_, fun t ht => ⟨?_, fun t' ht' => ?_⟩⟩
  · rw [value_eq]
    simp only [hread]
    cases tree? items [] with
    | none => simp
    | some t => simp
  · rw [value_eq]
    simp only [hread]
    cases tree? items [] with
    | none => simp
    | some t => simp
  · rw [← ht, t.printed_postorder]
  · exact Option.some.inj (((hread t').mp ht').symm.trans ((hread t).mp ht))

theorem value_iff_postorder_difference :
    (Tree.operator .subtract (.value 1) (.value 2)).postorder =
        [.value 1, .value 2, .operator .subtract] ∧
      value [.value 1, .value 2, .operator .subtract] =
        .ok (Operator.subtract.apply 1 2) ∧
      printed [.value 1, .value 2, .operator .subtract] = [] := by
  have ht : (Tree.operator .subtract (.value 1) (.value 2)).postorder =
      [.value 1, .value 2, .operator .subtract] := rfl
  obtain ⟨hvalue, -, htree⟩ := value_iff_postorder [.value 1, .value 2, .operator .subtract]
  exact ⟨ht, (hvalue _).mpr ⟨_, ht, rfl⟩, (htree _ ht).1⟩

end Postfix
end RuleSheet
