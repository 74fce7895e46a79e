import Mathlib.Data.List.Forall2
import RuleSheet.Proofs.Postfix.Piece
import RuleSheet.Proofs.Symbols

/-!
# Reading names that keep their values

A table is steady from some world on when every getter goes on answering what it answers
there, however often and in whatever order getters are called. It need not leave the
world as it is. Tokens are then read as their present values stand for, one after the
other, and none of them fails.
-/
namespace RuleSheet
variable {W : Type}

namespace Table

/-- The present value of a name. -/
def current? (t : Table W) (w : W) (n : String) : Option Float :=
  match t.get n with
  | none => none
  | some (.constant x) | some (.variable x) => some x
  | some (.accessor a) => some (a.get w).1

/-- No getter answers anything else after some calls of getters. -/
def Steady (t : Table W) (w : W) : Prop :=
  ∀ k a v, t.find? k = some (.accessor a) → t.Reads w v → (a.get v).1 = (a.get w).1

theorem steady_initial (w : W) : (Table.initial : Table W).Steady w := by
  intro k a v ha
  have hm := find?_eq_some_iff.mp ha
  simp [Table.initial] at hm

theorem Steady.current? {t : Table W} {w v : W} (h : t.Steady w) (hv : t.Reads w v)
    (n : String) : t.current? v n = t.current? w n := by
  unfold Table.current?
  split
  · rfl
  · rfl
  · rfl
  · rename_i a ha
    rw [h _ a v ha hv]

theorem run_resolve (t : Table W) (n : String) (h : Host W) :
    ((t.resolve n).run h).1 = t.current? h.world n := by
  unfold resolve current?
  cases t.get n with
  | none => rfl
  | some symbol => cases symbol <;> rfl

end Table

namespace Piece

/-- What a token is read as while names have the values `reading`. -/
inductive Stands (reading : String → Option Float) : Token → Piece → Prop
  | number {text : String} {x : Float} (hx : Number.read? text.toList = some x) :
      Stands reading (.number text) (.value x)
  | symbol {n : String} {x : Float} (hx : reading n = some x) :
      Stands reading (.name n) (.value x)
  | function {n : String} {f : Builtin} (hn : reading n = none)
      (hf : Builtin.ofName? n = some f) : Stands reading (.name n) (.function f)
  | operator (op : Operator) : Stands reading (.operator op) (.operator op)
  | opening : Stands reading .opening .opening
  | closing : Stands reading .closing .closing

theorem outcome_read {t : Table W} {w : W} (ht : t.Steady w) {token : Token} {p : Piece}
    (hp : Stands (t.current? w) token p) {h : Host W} (hw : t.Reads w h.world) :
    ((read t token).outcome h).1 = .ok p := by
  have hresolve (n : String) : ((t.resolve n).run h).1 = t.current? w n := by
    rw [t.run_resolve, ht.current? hw]
  cases hp with
  | number hx =>
      rw [read, hx]
      rfl
  | @symbol n x hx =>
      rw [read, Attempt.outcome_lift_bind, hresolve, hx]
      rfl
  | @function n f hn hf =>
      rw [read, Attempt.outcome_lift_bind, hresolve, hn]
      dsimp only
      rw [hf]
      rfl
  | operator op => rfl
  | opening => rfl
  | closing => rfl

theorem exists_outcome_mapM {t : Table W} {w : W} (ht : t.Steady w) {tokens : List Token}
    {pieces : List Piece} (hp : List.Forall₂ (Stands (t.current? w)) tokens pieces)
    {h : Host W} (hw : t.Reads w h.world) :
    ∃ k, (tokens.mapM (read t) : Attempt W _).outcome h = (.ok pieces, k) := by
  induction hp generalizing h with
  | nil => exact ⟨h, rfl⟩
  | @cons token p rest ps hread _ ih =>
      have hok := outcome_read ht hread hw
      have hworld := (hereditary_read (Attempt.hereditary_tries t) token h).world
      rcases hj : (read t token).outcome h with ⟨answer, j⟩
      rw [hj] at hok hworld
      obtain rfl : answer = .ok p := hok
      obtain ⟨k, hk⟩ := ih (hw.trans hworld)
      refine ⟨k, ?_⟩
      rw [List.mapM_cons, Attempt.outcome_bind_ok]
      refine ⟨p, j, hj, ?_⟩
      rw [Attempt.outcome_bind_ok]
      exact ⟨ps, k, hk, rfl⟩

end Piece
end RuleSheet
