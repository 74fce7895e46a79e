import RuleSheet.Session
import RuleSheet.Sheet

/-!
# Passes over a list of constraints

A ruleset holds statements in order and one session. A pass evaluates them one
after the other; a statement that fails is reported, and the pass goes on. Blank
statements are passed over but keep their positions. With resetting on, the
variables that the pass before declared are removed first, so that the same
declarations can run again.
-/
namespace RuleSheet

/-- A statement that failed, with its position in the list. -/
structure Failure where
  index : Nat
  statement : String
  error : StatementError
  deriving DecidableEq, Repr

def Failure.message (f : Failure) : String :=
  "constraint #" ++ toString f.index ++ " `" ++ f.statement ++ "`: " ++ f.error.message

/-- The number of statements that succeeded, and the failures in order. -/
structure Report where
  applied : Nat
  failures : List Failure
  deriving DecidableEq, Repr

def Report.isClean (r : Report) : Bool :=
  r.failures.isEmpty

structure Ruleset (W : Type) where
  constraints : List String
  session : Session W
  settings : PassSettings
  /-- The variables that the last pass added. -/
  declared : List String

namespace Ruleset
variable {W : Type}

def create (engine : EngineSettings) (settings : PassSettings) : Ruleset W :=
  ⟨[], .create engine, settings, []⟩

/-- The constraints of a sheet, with a new session under its settings. -/
def ofSheet (sheet : Sheet) : Ruleset W :=
  ⟨sheet.constraints, .create sheet.engine, sheet.passes, []⟩

def isBlankStatement (statement : String) : Bool :=
  (Text.trim statement.toList).isEmpty

/-- Evaluates the statements from position `index` on. -/
def runFrom (s : Session W) (index : Nat) : List String → Act W (Report × Session W)
  | [] => return (⟨0, []⟩, s)
  | statement :: rest =>
      if isBlankStatement statement then runFrom s (index + 1) rest
      else do
        match ← s.evaluate statement with
        | (.ok _, s) =>
            let (report, s) ← runFrom s (index + 1) rest
            return (⟨report.applied + 1, report.failures⟩, s)
        | (.error e, s) =>
            Act.record (.failed index statement e)
            let (report, s) ← runFrom s (index + 1) rest
            return (⟨report.applied, ⟨index, statement, e⟩ :: report.failures⟩, s)

/-- The session without the variables that the last pass added. -/
def cleared (r : Ruleset W) : Session W :=
  if r.settings.resetVariables then
    r.declared.foldl (fun s name => (s.removeVariable name).2) r.session
  else r.session

/-- One pass over all constraints. -/
def apply (r : Ruleset W) : Act W (Report × Ruleset W) := do
  let existing := r.cleared.table.variableNames
  let (report, session) ← runFrom r.cleared 0 r.constraints
  let declared := session.table.variableNames.filter fun name => !existing.contains name
  Act.record (.passed report.applied declared.length report.failures.length)
  return (report, { r with session := session, declared := declared })

end Ruleset
end RuleSheet
