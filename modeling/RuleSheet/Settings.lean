/-!
# Settings

The settings of a session and of the passes over a sheet. They are kept as they
were given; a session trims and lowers the keyword when it is opened.
-/
namespace RuleSheet

structure EngineSettings where
  /-- The word that begins a declaration. -/
  declarationKeyword : String := "var"
  /-- Parentheses that do not match are completed and not refused. -/
  autoBalance : Bool := true
  deriving DecidableEq, Repr

structure PassSettings where
  /-- A line of a text sheet that begins with this is a comment. -/
  commentPrefix : String := "#"
  /-- The variables of a pass are forgotten before the next. -/
  resetVariables : Bool := true
  deriving DecidableEq, Repr

end RuleSheet
