/-!
# Why a statement fails

One constructor for each cause. The structural errors are faults of the text
itself. The others are about names: taken, constant, not declared, not known,
reserved, or not fit to be a name.
-/
namespace RuleSheet

inductive StatementError where
  | multipleAssignment (statement : String)
  | missingTernaryBranch (expression : String)
  | mismatchedParentheses
  | malformedExpression
  | unexpectedCharacter (c : Char)
  | invalidNumber (text : String)
  | invalidName (name : String)
  | duplicateName (name : String)
  | constantAssignment (name : String)
  | undeclaredName (name : String)
  | unknownIdentifier (name : String)
  | reservedName (name : String)
  deriving DecidableEq, Repr

namespace StatementError

def message : StatementError → String
  | multipleAssignment statement => "More than one '=' in statement: " ++ statement
  | missingTernaryBranch expression => "Ternary '?' without matching ':' in: " ++ expression
  | mismatchedParentheses => "Mismatched parentheses"
  | malformedExpression => "Malformed expression"
  | unexpectedCharacter c => "Unexpected character '" ++ c.toString ++ "'"
  | invalidNumber text => "Invalid number literal '" ++ text ++ "'"
  | invalidName name => "Invalid name '" ++ name ++ "'"
  | duplicateName name => "Name '" ++ name ++ "' is already defined"
  | constantAssignment name => "Cannot assign to constant '" ++ name ++ "'"
  | undeclaredName name => "'" ++ name ++ "' is not a declared variable or accessor"
  | unknownIdentifier name => "Unknown identifier '" ++ name ++ "'"
  | reservedName name => "'" ++ name ++ "' is a reserved name"

/-- The text of the statement is at fault and not the names in it. -/
def isStructural : StatementError → Bool
  | multipleAssignment _ | missingTernaryBranch _ | mismatchedParentheses
  | malformedExpression | unexpectedCharacter _ | invalidNumber _ => true
  | invalidName _ | duplicateName _ | constantAssignment _ | undeclaredName _
  | unknownIdentifier _ | reservedName _ => false

end StatementError
end RuleSheet
