import RuleSheet.Proofs.Cursor.Offset
import RuleSheet.Proofs.Cursor.Scan
import RuleSheet.Proofs.Expression

/-!
# Expressions cut at byte offsets

A choice may be taken apart at the byte offsets of its question mark and its colon in the
UTF-8 form of the text. A cut is checked to fall between two characters, the count of nested
choices is checked before it is lowered, and a side is checked to be shorter than the choice
it comes from. None of these checks fails, and the value is that of the expression.
-/
namespace RuleSheet

/-- An activity in which a text is read by position. -/
abbrev Checked (W : Type) := ExceptT Fault (Act W)

/-- The same for an activity that may fail in itself. -/
abbrev CheckedAttempt (W : Type) := ExceptT StatementError (Checked W)

namespace Checked
variable {W α β : Type}

/-- What was read, or the fault that was met. -/
def ofRead (r : Except Fault α) : Checked W α :=
  ExceptT.mk (pure r)

/-- An attempt that reads nothing by position. -/
def faultless (m : Attempt W α) : CheckedAttempt W α :=
  ExceptT.mk (liftM m.run : Checked W (Except StatementError α))

theorem faultless_bind (m : Attempt W α) (f : α → Attempt W β) :
    faultless (m >>= f) = faultless m >>= fun x => faultless (f x) := by
  change ExceptT.mk (liftM (m.run >>= ExceptT.bindCont f) : Checked W _) =
    ExceptT.mk ((liftM m.run : Checked W _) >>= ExceptT.bindCont fun x => faultless (f x))
  rw [liftM_bind]
  congr 2
  funext r
  cases r with
  | ok x => rfl
  | error e => rfl

theorem ofRead_bind (x : α) (f : α → Checked W β) : (ofRead (.ok x) >>= f) = f x :=
  rfl

theorem lift_ofRead_bind (x : α) (f : α → CheckedAttempt W β) :
    (do let y ← (ofRead (.ok x) : Checked W α); f y) = f x :=
  rfl

end Checked

namespace Cursor
open Text

/-- One less, where there is one to take away. -/
def lowered : Nat → Except Fault Nat
  | 0 => .error .underflow
  | n + 1 => .ok n

/-- The byte offset of the colon that closes `depth` nested choices and then the outer one.
The first character is at the byte offset `index`. -/
def matchingColon (index depth : Nat) : List Char → Except Fault (Option Nat)
  | [] => .ok none
  | c :: rest =>
      if c = '?' then matchingColon (index + c.utf8Size) (depth + 1) rest
      else if c = ':' then
        if depth = 0 then .ok (some index)
        else do
          let outer ← lowered depth
          matchingColon (index + c.utf8Size) outer rest
      else matchingColon (index + c.utf8Size) depth rest

variable {W : Type}

/-- The value of a text without a choice. -/
def plainValue (t : Table W) (autoBalance : Bool) (cs : List Char) :
    CheckedAttempt W Float := do
  let tokens ← (Checked.ofRead (scan autoBalance cs) : Checked W _)
  let items ← Checked.faultless (Postfix.ofTokens t tokens)
  let (answer, printed) := Postfix.run items []
  (Act.recordPrinted printed : Act W Unit)
  match answer with
  | .ok x => pure x
  | .error e => throw e

/-- The value of an expression. -/
def value (t : Table W) (autoBalance : Bool) (cs : List Char) : CheckedAttempt W Float :=
  match find? '?' cs with
  | none => plainValue t autoBalance cs
  | some question => do
      let branches ← (Checked.ofRead (sliceFrom cs (question + 1)) : Checked W _)
      match ← (Checked.ofRead (matchingColon 0 0 branches) : Checked W _) with
      | none => throw (.missingTernaryBranch (String.ofList (trim cs)))
      | some colon =>
          let condition ← (Checked.ofRead (sliceTo cs question) : Checked W _)
          let x ← plainValue t autoBalance condition
          if Number.holds x then
            let yes ← (Checked.ofRead (sliceTo branches colon) : Checked W _)
            if yes.length < cs.length then value t autoBalance yes
            else (Checked.ofRead (.error .notShorter) : Checked W _)
          else
            let no ← (Checked.ofRead (sliceFrom branches (colon + 1)) : Checked W _)
            if no.length < cs.length then value t autoBalance no
            else (Checked.ofRead (.error .notShorter) : Checked W _)
termination_by cs.length

theorem plainValue_eq (t : Table W) (autoBalance : Bool) (cs : List Char) :
    plainValue t autoBalance cs =
      Checked.faultless (Expression.plainValue t autoBalance cs) := by
  unfold plainValue Expression.plainValue
  rw [scan_eq, Checked.lift_ofRead_bind, Checked.faultless_bind]
  congr 1
  funext items
  obtain ⟨x | e, printed⟩ := Postfix.run items []
  · rfl
  · rfl

/-- The offset that is found is that of the colon at which a choice is split, and no depth
of zero is lowered on the way. -/
theorem matchingColon_eq (index depth : Nat) (cs : List Char) :
    matchingColon index depth cs =
      .ok ((Expression.splitColon depth cs).map fun parts => index + bytes parts.1) := by
  induction cs generalizing index depth with
  | nil => rfl
  | cons c rest ih =>
      have hstep (inside : Nat) :
          matchingColon (index + c.utf8Size) inside rest =
            .ok (((Expression.splitColon inside rest).map fun parts =>
              (c :: parts.1, parts.2)).map fun parts => index + bytes parts.1) := by
        rw [ih, Option.map_map]
        congr 2
        funext parts
        rw [Function.comp_apply, bytes_cons, Nat.add_assoc]
      rw [matchingColon, Expression.splitColon]
      by_cases hquestion : c = '?'
      · rw [if_pos hquestion, if_neg (by simp [hquestion])]
        simp only [if_pos hquestion]
        exact hstep (depth + 1)
      · rw [if_neg hquestion]
        by_cases hcolon : c = ':'
        · rw [if_pos hcolon]
          cases depth with
          | zero =>
              rw [if_pos rfl, if_pos ⟨hcolon, rfl⟩]
              rfl
          | succ depth =>
              rw [if_neg (Nat.succ_ne_zero depth), if_neg (by simp)]
              simp only [if_neg hquestion, if_pos hcolon, Nat.add_sub_cancel]
              exact hstep depth
        · rw [if_neg hcolon, if_neg (by simp [hcolon])]
          simp only [if_neg hquestion, if_neg hcolon]
          exact hstep depth

theorem value_of_not_mem {cs : List Char} (h : '?' ∉ cs) (t : Table W) (autoBalance : Bool) :
    value t autoBalance cs = plainValue t autoBalance cs := by
  rw [value, find?_eq, cut_eq_none_iff.mpr h]
  rfl

section
variable {cs condition branches yes no : List Char}

theorem value_of_missing (hq : Expression.splitQuestion cs = some (condition, branches))
    (hc : Expression.splitColon 0 branches = none) (t : Table W) (autoBalance : Bool) :
    value t autoBalance cs = throw (.missingTernaryBranch (String.ofList (trim cs))) := by
  have hbranches : sliceFrom cs (bytes condition + 1) = .ok branches :=
    Expression.splitQuestion_append hq ▸ sliceFrom_append rfl condition branches
  rw [value, find?_eq, ← Expression.splitQuestion_eq_cut, hq]
  dsimp only [Option.map_some]
  rw [hbranches, Checked.lift_ofRead_bind, matchingColon_eq, hc, Option.map_none,
    Checked.lift_ofRead_bind]

/-- A choice is cut where its question mark and its colon begin and end, and its sides are
shorter than itself. -/
theorem value_of_choice (hq : Expression.splitQuestion cs = some (condition, branches))
    (hc : Expression.splitColon 0 branches = some (yes, no)) (t : Table W)
    (autoBalance : Bool) :
    value t autoBalance cs = (do
      let x ← plainValue t autoBalance condition
      if Number.holds x then value t autoBalance yes else value t autoBalance no) := by
  have hcs := Expression.splitQuestion_append hq
  have hsides := Expression.splitColon_append hc
  have hcondition : sliceTo cs (bytes condition) = .ok condition :=
    hcs ▸ sliceTo_append condition _
  have hbranches : sliceFrom cs (bytes condition + 1) = .ok branches :=
    hcs ▸ sliceFrom_append rfl condition branches
  have hyes : sliceTo branches (bytes yes) = .ok yes := hsides ▸ sliceTo_append yes _
  have hno : sliceFrom branches (bytes yes + 1) = .ok no :=
    hsides ▸ sliceFrom_append rfl yes no
  have hshorter := Expression.sides_length hq hc
  rw [value, find?_eq, ← Expression.splitQuestion_eq_cut, hq]
  dsimp only [Option.map_some]
  rw [hbranches, Checked.lift_ofRead_bind, matchingColon_eq, hc, Option.map_some,
    Checked.lift_ofRead_bind, Nat.zero_add]
  dsimp only
  rw [hcondition, Checked.lift_ofRead_bind, hyes, Checked.lift_ofRead_bind, if_pos hshorter.1, hno,
    Checked.lift_ofRead_bind, if_pos hshorter.2]

end

theorem value_eq (t : Table W) (autoBalance : Bool) (cs : List Char) :
    value t autoBalance cs = Checked.faultless (Expression.value t autoBalance cs) := by
  induction cs using Expression.choice_induction with
  | plain cs hplain =>
      rw [value_of_not_mem hplain, Expression.value_plain hplain]
      exact plainValue_eq t autoBalance cs
  | missing cs condition branches hq hc =>
      rw [value_of_missing hq hc, Expression.value_missing hq hc]
      rfl
  | choice cs condition branches yes no hq hc ihYes ihNo =>
      rw [value_of_choice hq hc, Expression.value_choice hq hc, Checked.faultless_bind,
        plainValue_eq, ihYes, ihNo]
      congr 1
      funext x
      split
      · rfl
      · rfl

end Cursor
end RuleSheet
