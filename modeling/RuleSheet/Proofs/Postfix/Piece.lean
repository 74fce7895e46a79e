import RuleSheet.Postfix.Convert
import RuleSheet.Proofs.Observation

/-!
# Conversion in two stages

Taking a token does two things. The token is read: a number is parsed and a name is
looked up, which may call a getter and may fail. What was read, a piece, then goes
through the yard, which is a pure function and fails only at a closing parenthesis
that closes nothing. The conversion of a list of tokens therefore succeeds exactly
when the tokens can be read one after the other and the pieces pass the yard.
-/
namespace RuleSheet
variable {W : Type}

/-- A token once its number or name has been read. -/
inductive Piece where
  | value (x : Float)
  | function (f : Builtin)
  | operator (op : Operator)
  | opening
  | closing

namespace Piece

/-- Reads a token. A name means a symbol of the table before it means a function. -/
def read (t : Table W) : Token → Attempt W Piece
  | .number text =>
      match Number.read? text.toList with
      | some x => pure (.value x)
      | none => throw (.invalidNumber text)
  | .name n => do
      match ← t.resolve n with
      | some x => pure (.value x)
      | none =>
          match Builtin.ofName? n with
          | some f => pure (.function f)
          | none => throw (.unknownIdentifier n)
  | .operator op => pure (.operator op)
  | .opening => pure .opening
  | .closing => pure .closing
  | .stray c => throw (.unexpectedCharacter c)

theorem hereditary_read {t : Table W} {C : (α : Type) → Attempt W α → Prop}
    (hC : Attempt.Hereditary t C) (token : Token) : C Piece (read t token) := by
  cases token with
  | number text =>
      rw [read]
      cases Number.read? text.toList with
      | some x => exact hC.pure _
      | none => exact hC.throw _
  | name n =>
      refine hC.bind (hC.resolve n) fun value => ?_
      cases value with
      | some x => exact hC.pure _
      | none =>
          dsimp only
          cases Builtin.ofName? n with
          | some f => exact hC.pure _
          | none => exact hC.throw _
  | operator op => exact hC.pure _
  | opening => exact hC.pure _
  | closing => exact hC.pure _
  | stray c => exact hC.throw _

end Piece

namespace Yard

/-- Takes one piece; there is no answer if it closes nothing. -/
def step (y : Yard) : Piece → Option Yard
  | .value x => some (y.send (.value x))
  | .function f => some (y.hold (.function f))
  | .operator op => some ((releaseBefore op y.sent y.held).hold (.operator op))
  | .opening => some (y.hold .opening)
  | .closing => (releaseGroup y.sent y.held).map releaseCall

/-- A step as an activity. -/
def stepOrFail (y : Yard) (p : Piece) : Attempt W Yard :=
  match y.step p with
  | some z => pure z
  | none => throw .mismatchedParentheses

theorem take_eq (t : Table W) (y : Yard) (token : Token) :
    take t y token = (Piece.read t token >>= stepOrFail y) := by
  cases token with
  | number text =>
      rw [take, Piece.read]
      cases Number.read? text.toList <;> rfl
  | name n =>
      rw [take, Piece.read, bind_assoc]
      refine bind_congr fun value => ?_
      cases value with
      | some x => rfl
      | none =>
          dsimp only
          cases Builtin.ofName? n <;> rfl
  | operator op => rfl
  | opening => rfl
  | closing =>
      rw [take, Piece.read, pure_bind, stepOrFail, step]
      cases releaseGroup y.sent y.held <;> rfl
  | stray c => rfl

theorem hereditary_take {t : Table W} {C : (α : Type) → Attempt W α → Prop}
    (hC : Attempt.Hereditary t C) (y : Yard) (token : Token) : C Yard (take t y token) := by
  rw [take_eq]
  refine hC.bind (Piece.hereditary_read hC token) fun p => ?_
  unfold stepOrFail
  cases y.step p with
  | some z => exact hC.pure z
  | none => exact hC.throw _

/-- The tokens are taken exactly when they can be read and the pieces pass the yard. -/
theorem outcome_foldlM_take {t : Table W} {tokens : List Token} {y z : Yard} {h k : Host W} :
    (tokens.foldlM (take t) y : Attempt W Yard).outcome h = (.ok z, k) ↔
      ∃ pieces, (tokens.mapM (Piece.read t) : Attempt W _).outcome h = (.ok pieces, k) ∧
        pieces.foldlM step y = some z := by
  induction tokens generalizing y h with
  | nil =>
      rw [List.foldlM_nil, List.mapM_nil]
      simp only [Attempt.outcome_pure, Prod.mk.injEq, Except.ok.injEq]
      constructor
      · intro hboth
        rcases hboth with ⟨rfl, rfl⟩
        exact ⟨[], ⟨rfl, rfl⟩, rfl⟩
      · intro hboth
        rcases hboth with ⟨pieces, ⟨rfl, rfl⟩, hz⟩
        exact ⟨Option.some.inj hz, rfl⟩
  | cons token rest ih =>
      rw [List.foldlM_cons, List.mapM_cons, take_eq, bind_assoc, Attempt.outcome_bind_ok]
      simp only [Attempt.outcome_bind_ok, Attempt.outcome_pure, Prod.mk.injEq, Except.ok.injEq]
      constructor
      · intro hboth
        rcases hboth with ⟨p, j, hp, x, i, hx, hr⟩
        obtain ⟨pieces, hpieces, hz⟩ := ih.mp hr
        unfold stepOrFail at hx
        cases hs : y.step p with
        | none => simp [hs] at hx
        | some w =>
            simp only [hs, Attempt.outcome_pure, Prod.mk.injEq, Except.ok.injEq] at hx
            obtain ⟨rfl, rfl⟩ := hx
            refine ⟨p :: pieces, ⟨p, j, hp, pieces, k, hpieces, rfl, rfl⟩, ?_⟩
            rw [List.foldlM_cons, hs]
            exact hz
      · intro hboth
        rcases hboth with ⟨all, ⟨p, j, hp, pieces, i, hpieces, rfl, rfl⟩, hz⟩
        rw [List.foldlM_cons] at hz
        obtain ⟨w, hw, hz⟩ := Option.bind_eq_some_iff.mp hz
        refine ⟨p, j, hp, w, j, ?_, ih.mpr ⟨pieces, hpieces, hz⟩⟩
        rw [stepOrFail, hw]
        rfl

end Yard

namespace Postfix

theorem hereditary_ofTokens {t : Table W} {C : (α : Type) → Attempt W α → Prop}
    (hC : Attempt.Hereditary t C) (tokens : List Token) : C (List Item) (ofTokens t tokens) := by
  refine hC.bind (hC.foldlM (Yard.hereditary_take hC) tokens _) fun y => ?_
  cases Yard.releaseAll y.sent y.held with
  | ok items => exact hC.pure items
  | error e => exact hC.throw e

/-- The postfix sequence of pieces, if their parentheses match. -/
def ofPieces (pieces : List Piece) : Option (List Item) := do
  let y ← pieces.foldlM Yard.step Yard.empty
  (Yard.releaseAll y.sent y.held).toOption

theorem ofPieces_eq_some_iff {pieces : List Piece} {items : List Item} :
    ofPieces pieces = some items ↔ ∃ y, pieces.foldlM Yard.step Yard.empty = some y ∧
      Yard.releaseAll y.sent y.held = .ok items := by
  unfold ofPieces
  rw [Option.bind_eq_bind, Option.bind_eq_some_iff]
  refine exists_congr fun y => and_congr_right fun _ => ?_
  cases Yard.releaseAll y.sent y.held <;> simp [Except.toOption]

theorem outcome_liftExcept {answer : Except StatementError (List Item)} {items : List Item}
    {h k : Host W} :
    (ofTokens.liftExcept answer : Attempt W _).outcome h = (.ok items, k) ↔
      answer = .ok items ∧ h = k := by
  cases answer <;> simp [ofTokens.liftExcept]

theorem outcome_ofTokens {t : Table W} {tokens : List Token} {items : List Item}
    {h k : Host W} :
    (ofTokens t tokens).outcome h = (.ok items, k) ↔
      ∃ pieces, (tokens.mapM (Piece.read t) : Attempt W _).outcome h = (.ok pieces, k) ∧
        ofPieces pieces = some items := by
  unfold ofTokens
  simp only [Attempt.outcome_bind_ok, outcome_liftExcept, Yard.outcome_foldlM_take,
    ofPieces_eq_some_iff]
  constructor
  · intro hboth
    rcases hboth with ⟨y, j, ⟨pieces, hp, hy⟩, ha, rfl⟩
    exact ⟨pieces, hp, y, hy, ha⟩
  · intro hboth
    rcases hboth with ⟨pieces, hp, y, hy, ha⟩
    exact ⟨y, k, ⟨pieces, hp, hy⟩, ha, rfl⟩

end Postfix
end RuleSheet
