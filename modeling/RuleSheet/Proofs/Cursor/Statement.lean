import RuleSheet.Proofs.Cursor.Expression
import RuleSheet.Session

/-!
# Statements evaluated by position

Whatever a statement says, its evaluation ends in a value or in an error of its own and never
in a fault, in every session. Names are checked by scanning them, and right sides are scanned,
cut and shortened, so all the checks of the modules before this one are made on the way.
-/
namespace RuleSheet
variable {W : Type}

namespace Cursor
open Session (Target)

/-- Whether a text reads back as one name token. -/
def isIdentifier (name : String) : Except Fault Bool := do
  return (← scan false name.toList) == [.name name]

/-- The check of a name for a new symbol. -/
def checkNewName (s : Session W) (name : String) : ExceptT StatementError (Except Fault) Unit :=
  if Builtin.isName name || name == s.settings.declarationKeyword then throw (.reservedName name)
  else do
    let identifier ← (isIdentifier name : Except Fault Bool)
    if !identifier then throw (.invalidName name)
    else if s.table.contains name then throw (.duplicateName name)

/-- The left side of a statement. -/
def target (s : Session W) (left : List Char) : ExceptT StatementError (Except Fault) Target :=
  let name := Session.fold left
  match s.declaredName? name with
  | some new => do
      checkNewName s new
      return .declaration new
  | none =>
      match s.table.get (String.ofList name) with
      | some (.constant _) => throw (.constantAssignment (String.ofList name))
      | none => throw (.undeclaredName (String.ofList name))
      | some _ => return .symbol (String.ofList name)

/-- Evaluates the right side and writes its value to the left side. -/
def assign (s : Session W) (left right : List Char) :
    Checked W (Except StatementError Float × Session W) := do
  match ← Checked.ofRead (target s left).run with
  | .error e => return (.error e, s)
  | .ok target =>
      match ← (value s.table s.settings.autoBalance right).run with
      | .error e => return (.error e, s)
      | .ok x => s.store x target

/-- Evaluates a statement and answers its value and the session after it. -/
def evaluate (s : Session W) (statement : String) :
    Checked W (Except StatementError Float × Session W) :=
  match Session.splitEquals statement.toList with
  | none => do
      let answer ← (value s.table s.settings.autoBalance statement.toList).run
      return (answer, s)
  | some (left, right) =>
      if right.contains '=' then
        return (.error (.multipleAssignment (String.ofList (Text.trim statement.toList))), s)
      else assign s left right

theorem isIdentifier_eq (name : String) : isIdentifier name = .ok (Token.isIdentifier name) := by
  rw [isIdentifier, scan_eq]
  rfl

theorem checkNewName_eq (s : Session W) (name : String) :
    (checkNewName s name).run = .ok (s.checkNewName name) := by
  unfold checkNewName Session.checkNewName
  rw [isIdentifier_eq]
  split
  · rfl
  · change ExceptT.run (if !Token.isIdentifier name then _ else _) = _
    split
    · rfl
    · split
      · rfl
      · rfl

theorem target_eq (s : Session W) (left : List Char) :
    (target s left).run = .ok (s.target left) := by
  unfold target Session.target
  dsimp only
  cases s.declaredName? (Session.fold left) with
  | some new =>
      dsimp only
      change (checkNewName s new).run >>= _ = _
      rw [checkNewName_eq]
      cases s.checkNewName new with
      | ok u => rfl
      | error e => rfl
  | none =>
      cases s.table.get (String.ofList (Session.fold left)) with
      | none => rfl
      | some found =>
          cases found with
          | constant x => rfl
          | «variable» x => rfl
          | accessor a => rfl

theorem assign_eq (s : Session W) (left right : List Char) :
    assign s left right = liftM (s.assign left right) := by
  unfold assign Session.assign
  rw [target_eq, Checked.ofRead_bind, value_eq]
  cases s.target left with
  | error e => rfl
  | ok target =>
      dsimp only
      rw [liftM_bind]
      refine congrArg (_ >>= ·) (funext fun answer => ?_)
      cases answer with
      | error e => rfl
      | ok x => rfl

/-- Whatever the session and the statement are, evaluating the statement by position meets no
fault: it ends in a value or an error, which are those of the session, and leaves the session
and the world outside as the session does. -/
theorem evaluate_faultless (s : Session W) (statement : String) (h : Host W) :
    (Cursor.evaluate s statement).run.run h =
      (.ok ((s.evaluate statement).run h).1, ((s.evaluate statement).run h).2) := by
  have hlift : Cursor.evaluate s statement = liftM (s.evaluate statement) := by
    unfold evaluate Session.evaluate
    cases Session.splitEquals statement.toList with
    | none =>
        dsimp only
        rw [value_eq, liftM_bind]
        rfl
    | some sides =>
        dsimp only
        split
        · rfl
        · exact assign_eq s sides.1 sides.2
  rw [hlift]
  rfl

end Cursor
end RuleSheet
