import Mathlib.Algebra.BigOperators.Group.List.Basic
import Mathlib.Algebra.Ring.Int.Defs
import RuleSheet.Proofs.Postfix.Contents

/-!
# Counting operands

A value weighs one, an operator takes one away, and all else weighs nothing. A sequence
that has a value therefore weighs one in all. The yard loses no items, so what it has sent
and what it holds weigh together as much as the pieces it has taken, and it holds as many
opening parentheses as are open.
-/
namespace RuleSheet

def Item.weight : Item → Int
  | .value _ => 1
  | .operator _ => -1
  | .function _ => 0

def Held.weight : Held → Int
  | .operator _ => -1
  | _ => 0

def Held.isOpening : Held → Bool
  | .opening => true
  | _ => false

def Piece.weight : Piece → Int
  | .value _ => 1
  | .operator _ => -1
  | _ => 0

namespace Postfix

/-- A run that ends well leaves one number of the stack and the values of the sequence. -/
theorem weight_of_run {items : List Item} {stack : List Float} {x : Float}
    (h : (run items stack).1 = .ok x) :
    (stack.length : Int) + (items.map Item.weight).sum = 1 := by
  fun_induction run items stack with
  | case1 => rfl
  | case2 => cases h
  | case3 stack y rest ih =>
      have hr := ih h
      simp only [List.length_cons, List.map_cons, List.sum_cons, Item.weight] at hr ⊢
      omega
  | case4 f rest y stack answer printed he ih =>
      rw [he] at ih
      have hr := ih h
      simp only [List.length_cons, List.map_cons, List.sum_cons, Item.weight] at hr ⊢
      omega
  | case5 op rest y z stack ih =>
      have hr := ih h
      simp only [List.length_cons, List.map_cons, List.sum_cons, Item.weight] at hr ⊢
      omega
  | case6 => cases h

theorem weight_of_value {items : List Item} {x : Float} (h : value items = .ok x) :
    (items.map Item.weight).sum = 1 := by
  have hw := weight_of_run h
  simpa using hw

end Postfix

namespace Yard

/-- What the yard has sent and what it holds weigh this much. -/
def weight (y : Yard) : Int :=
  (y.sent.map Item.weight).sum + (y.held.map Held.weight).sum

/-- The number of open parentheses. -/
def depth (y : Yard) : Nat :=
  y.held.countP Held.isOpening

theorem weight_eq (y : Yard) : y.weight = (y.items.map Item.weight).sum := by
  have hheld (held : List Held) :
      (held.map Held.weight).sum = ((held.filterMap Held.item?).map Item.weight).sum := by
    induction held with
    | nil => rfl
    | cons p rest ih =>
        rw [List.map_cons, List.sum_cons, ih]
        cases p with
        | opening => exact Int.zero_add _
        | operator op => rfl
        | function f => rfl
  rw [weight, items, List.map_append, List.sum_append, hheld]

theorem Moved.weight {y z : Yard} (h : y.Moved z) : z.weight = y.weight := by
  rw [weight_eq, weight_eq, (h.items.map Item.weight).sum_eq]

theorem weight_step {y z : Yard} {p : Piece} (h : y.step p = some z) :
    z.weight = y.weight + p.weight := by
  have hpiece : (p.item?.toList.map Item.weight).sum = p.weight := by
    cases p <;> rfl
  rw [weight_eq, weight_eq, ((items_step h).1.map Item.weight).sum_eq, List.map_append,
    List.sum_append, hpiece, Int.add_comm]

theorem depth_releaseBefore (op : Operator) (sent : List Item) (held : List Held) :
    (releaseBefore op sent held).depth = depth ⟨sent, held⟩ := by
  fun_induction releaseBefore op sent held with
  | case1 sent top rest hy ih => simpa [depth, Held.isOpening] using ih
  | case2 => rfl
  | case3 => rfl

theorem depth_releaseGroup {sent : List Item} {held : List Held} {z : Yard}
    (h : releaseGroup sent held = some z) : z.depth + 1 = depth ⟨sent, held⟩ := by
  fun_induction releaseGroup sent held with
  | case1 => cases h
  | case2 sent rest =>
      obtain rfl := Option.some.inj h
      exact (List.countP_cons_of_pos rfl).symm
  | case3 sent op rest ih => simpa [depth, Held.isOpening] using ih h
  | case4 sent f rest ih => simpa [depth, Held.isOpening] using ih h

@[simp] theorem depth_releaseCall (y : Yard) : y.releaseCall.depth = y.depth := by
  obtain ⟨sent, held⟩ := y
  unfold releaseCall
  split
  · rename_i f rest hheld
    obtain rfl : held = .function f :: rest := hheld
    simp [depth, Held.isOpening]
  · rfl

/-- How a piece changes the number of open parentheses. -/
theorem depth_step {y z : Yard} {p : Piece} (h : y.step p = some z) :
    match p with
    | .opening => z.depth = y.depth + 1
    | .closing => z.depth + 1 = y.depth
    | _ => z.depth = y.depth := by
  cases p with
  | value x =>
      obtain rfl := Option.some.inj h
      rfl
  | function f =>
      obtain rfl := Option.some.inj h
      simp [depth, hold, Held.isOpening]
  | operator op =>
      obtain rfl := Option.some.inj h
      simpa [depth, hold, Held.isOpening] using depth_releaseBefore op y.sent y.held
  | opening =>
      obtain rfl := Option.some.inj h
      exact List.countP_cons_of_pos rfl
  | closing =>
      obtain ⟨w, hw, rfl⟩ := Option.map_eq_some_iff.mp h
      dsimp only
      rw [depth_releaseCall, depth_releaseGroup hw]

theorem weight_releaseAll {sent items : List Item} {held : List Held}
    (h : releaseAll sent held = .ok items) :
    (items.map Item.weight).sum = weight ⟨sent, held⟩ ∧ depth ⟨sent, held⟩ = 0 := by
  constructor
  · rw [← (moved_releaseAll h).weight]
    simp [weight, List.sum_reverse]
  · fun_induction releaseAll sent held with
    | case1 sent => rfl
    | case2 => cases h
    | case3 sent op rest ih => simpa [depth, Held.isOpening] using ih h
    | case4 sent f rest ih => simpa [depth, Held.isOpening] using ih h

end Yard
end RuleSheet
