import RuleSheet.Settings
import RuleSheet.Text.Blank
import RuleSheet.Text.Lines

/-!
# Sheets

A sheet is a list of constraints and the settings to run them with. A plain text
sheet has one constraint on a line. Lines are trimmed; those that are then blank
or begin with the comment prefix are left out. An empty prefix marks nothing as
a comment.
-/
namespace RuleSheet

structure Sheet where
  constraints : List String := []
  engine : EngineSettings := {}
  passes : PassSettings := {}
  deriving DecidableEq, Repr

namespace Sheet

/-- A trimmed line that holds a constraint. -/
def isConstraint (commentPrefix line : List Char) : Bool :=
  !line.isEmpty && (commentPrefix.isEmpty || !commentPrefix.isPrefixOf line)

/-- The constraints of a plain text. -/
def textConstraints (commentPrefix text : List Char) : List (List Char) :=
  ((Text.lines text).map Text.trim).filter (isConstraint commentPrefix)

/-- A plain text sheet. -/
def ofText (text : String) (passes : PassSettings) : Sheet where
  constraints := (textConstraints passes.commentPrefix.toList text.toList).map String.ofList
  passes := passes

end Sheet
end RuleSheet
