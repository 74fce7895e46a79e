import RuleSheet.Proofs.Postfix.Piece
import RuleSheet.Proofs.Postfix.Tree

/-!
# What the yard makes of a grouped expression

A bracketed expression is a tree whose nodes stand as they are written, with the groups
that are in parentheses. The operators that no parentheses enclose are exposed. It is
grouped as its operators bind when at every operator those exposed on its left are to be
finished first and those exposed on its right are not.

Taking the pieces of such an expression, the yard sends its postorder, except for some
exposed operators that it still holds back, and it touches nothing that it held before.
-/
namespace RuleSheet

inductive Bracketed where
  | value (x : Float)
  | call (f : Builtin) (e : Bracketed)
  | group (e : Bracketed)
  | binary (op : Operator) (l r : Bracketed)

namespace Bracketed

/-- The pieces in the order in which they are written. -/
def pieces : Bracketed → List Piece
  | value x => [.value x]
  | call f e => .function f :: .opening :: (e.pieces ++ [.closing])
  | group e => .opening :: (e.pieces ++ [.closing])
  | binary op l r => l.pieces ++ .operator op :: r.pieces

/-- The expression without its parentheses. -/
def tree : Bracketed → Tree
  | value x => .value x
  | call f e => .function f e.tree
  | group e => e.tree
  | binary op l r => .operator op l.tree r.tree

/-- The operators outside all parentheses. -/
def exposed : Bracketed → List Operator
  | binary op l r => l.exposed ++ op :: r.exposed
  | _ => []

/-- Every operator has the operands that binding strength and direction give it. -/
def Grouped : Bracketed → Prop
  | value _ => True
  | call _ e => e.Grouped
  | group e => e.Grouped
  | binary op l r => l.Grouped ∧ r.Grouped ∧
      (∀ o ∈ l.exposed, o.yieldsTo op = true) ∧ ∀ o ∈ r.exposed, op.yieldsTo o = false

end Bracketed

namespace Yard

/-- The yard holds no operator that yields to one of these, and no function, on top. -/
def Guarded (held : List Held) (ops : List Operator) : Prop :=
  match held with
  | .operator top :: _ => ∀ o ∈ ops, top.yieldsTo o = false
  | .function _ :: _ => False
  | _ => True

theorem Guarded.mono {held : List Held} {ops more : List Operator} (h : Guarded held more)
    (hsub : ops ⊆ more) : Guarded held ops := by
  cases held with
  | nil => trivial
  | cons top rest =>
      cases top with
      | opening => trivial
      | function f => exact h
      | operator op => exact fun o ho => h o (hsub ho)

theorem releaseBefore_append {op : Operator} {ops : List Operator} {held : List Held}
    (hops : ∀ o ∈ ops, o.yieldsTo op = true) (hheld : Guarded held [op]) (sent : List Item) :
    releaseBefore op sent (ops.map .operator ++ held) =
      ⟨(ops.map .operator).reverse ++ sent, held⟩ := by
  induction ops generalizing sent with
  | nil =>
      cases held with
      | nil => rfl
      | cons top rest =>
          cases top with
          | opening => rfl
          | function f => rfl
          | operator o =>
              have hnot : o.yieldsTo op = false := hheld op (by simp)
              simp [releaseBefore, hnot]
  | cons o rest ih =>
      rw [List.map_cons, List.cons_append, releaseBefore, if_pos (hops o (by simp)),
        ih fun p hp => hops p (by simp [hp])]
      simp

theorem releaseGroup_append (ops : List Operator) (held : List Held) (sent : List Item) :
    releaseGroup sent (ops.map .operator ++ .opening :: held) =
      some ⟨(ops.map .operator).reverse ++ sent, held⟩ := by
  induction ops generalizing sent with
  | nil => rfl
  | cons o rest ih =>
      rw [List.map_cons, List.cons_append, releaseGroup, ih]
      simp

theorem releaseAll_operators (ops : List Operator) (sent : List Item) :
    releaseAll sent (ops.map .operator) =
      .ok ((ops.map Item.operator).reverse ++ sent).reverse := by
  induction ops generalizing sent with
  | nil => rfl
  | cons o rest ih =>
      rw [List.map_cons, releaseAll, ih]
      simp

theorem releaseCall_of_guarded {held : List Held} (h : Guarded held []) (sent : List Item) :
    releaseCall ⟨sent, held⟩ = ⟨sent, held⟩ := by
  cases held with
  | nil => rfl
  | cons top rest =>
      cases top with
      | opening => rfl
      | function f => exact h.elim
      | operator op => rfl

end Yard

namespace Bracketed
open Yard

/-- What the yard has after the pieces of a grouped expression: the postorder once the
exposed operators `ops` have been sent too. -/
structure Taken (b : Bracketed) (y : Yard) (sent : List Item) (ops : List Operator) : Prop where
  step : b.pieces.foldlM Yard.step y = some ⟨sent, ops.map .operator ++ y.held⟩
  sent : (ops.map .operator).reverse ++ sent = b.tree.postorder.reverse ++ y.sent
  exposed : ops ⊆ b.exposed

theorem Taken.closing {e : Bracketed} {y : Yard} {sent : List Item} {ops : List Operator}
    (h : Taken e (y.hold .opening) sent ops) :
    (Piece.opening :: (e.pieces ++ [.closing])).foldlM Yard.step y =
      some (releaseCall ⟨e.tree.postorder.reverse ++ y.sent, y.held⟩) := by
  have hsent := h.sent
  have hstep := h.step
  rw [List.foldlM_cons]
  change List.foldlM Yard.step (y.hold .opening) _ = _
  rw [List.foldlM_append, hstep]
  change (releaseGroup sent (ops.map .operator ++ .opening :: y.held)).map releaseCall >>= _ = _
  rw [releaseGroup_append, hsent]
  rfl

theorem exists_taken {b : Bracketed} (hb : b.Grouped) {y : Yard}
    (hy : Guarded y.held b.exposed) : ∃ sent ops, Taken b y sent ops := by
  induction b generalizing y with
  | value x => exact ⟨.value x :: y.sent, [], rfl, rfl, by simp⟩
  | group e ih =>
      obtain ⟨sent, ops, h⟩ := ih hb (y := y.hold .opening) trivial
      refine ⟨e.tree.postorder.reverse ++ y.sent, [], ?_, rfl, by simp⟩
      rw [pieces, h.closing, releaseCall_of_guarded (hy.mono (by simp))]
      rfl
  | call f e ih =>
      obtain ⟨sent, ops, h⟩ := ih hb (y := (y.hold (.function f)).hold .opening) trivial
      refine ⟨.function f :: (e.tree.postorder.reverse ++ y.sent), [], ?_, ?_, by simp⟩
      · rw [pieces, List.foldlM_cons]
        change List.foldlM Yard.step (y.hold (.function f)) _ = _
        rw [h.closing]
        rfl
      · simp [tree, Tree.postorder]
  | binary op l r ihl ihr =>
      obtain ⟨hl, hr, hleft, hright⟩ := hb
      obtain ⟨sent₁, ops₁, h₁⟩ := ihl hl (hy.mono (by simp [exposed]))
      have hrelease : releaseBefore op sent₁ (ops₁.map .operator ++ y.held) =
          ⟨l.tree.postorder.reverse ++ y.sent, y.held⟩ := by
        rw [releaseBefore_append (fun o ho => hleft o (h₁.exposed ho))
          (hy.mono (by simp [exposed])), h₁.sent]
      obtain ⟨sent₂, ops₂, h₂⟩ := ihr hr
        (y := ⟨l.tree.postorder.reverse ++ y.sent, .operator op :: y.held⟩) hright
      refine ⟨sent₂, ops₂ ++ [op], ?_, ?_, ?_⟩
      · rw [pieces, List.foldlM_append, h₁.step]
        change (List.foldlM Yard.step
          ((releaseBefore op sent₁ (ops₁.map .operator ++ y.held)).hold (.operator op)) _) = _
        rw [hrelease]
        change List.foldlM Yard.step ⟨_, .operator op :: y.held⟩ r.pieces = _
        rw [h₂.step]
        simp
      · have hsent := h₂.sent
        simp only [List.map_append, List.map_cons, List.map_nil, List.reverse_append,
          List.reverse_cons, List.reverse_nil, List.nil_append, List.cons_append, tree,
          Tree.postorder, List.append_assoc]
        simpa using hsent
      · intro o ho
        rw [List.mem_append, List.mem_singleton] at ho
        rw [exposed, List.mem_append, List.mem_cons]
        rcases ho with ho | rfl
        · exact .inr (.inr (h₂.exposed ho))
        · exact .inr (.inl rfl)

/-- The postfix sequence of a grouped expression is the postorder of its tree. -/
theorem ofPieces_pieces {b : Bracketed} (hb : b.Grouped) :
    Postfix.ofPieces b.pieces = some b.tree.postorder := by
  obtain ⟨sent, ops, h⟩ := exists_taken hb (y := Yard.empty) trivial
  have hsent := h.sent
  unfold Postfix.ofPieces
  rw [h.step]
  change (releaseAll sent (ops.map .operator ++ [])).toOption = _
  rw [List.append_nil, releaseAll_operators, hsent]
  simp [Yard.empty, Except.toOption]

end Bracketed
end RuleSheet
