import RuleSheet.Expression
import RuleSheet.Settings

/-!
# Sessions

A session holds a symbol table and evaluates statements against it. A statement
without an equals sign is an expression. With one it is a declaration, when its
left side is the keyword, a blank and a name, and otherwise an assignment to a
symbol that exists already. The left side is trimmed and lowered as a whole, and
it is checked before anything on the right is evaluated.
-/
namespace RuleSheet

structure Session (W : Type) where
  table : Table W
  settings : EngineSettings

namespace Session
variable {W : Type}

/-- A name or a keyword as statements spell it: trimmed, and lowered as a whole. -/
def fold (cs : List Char) : List Char :=
  Text.lower (Text.trim cs)

/-- A new session, with the keyword in its folded form. -/
def create (settings : EngineSettings) : Session W where
  table := .initial
  settings :=
    { settings with
      declarationKeyword := String.ofList (fold settings.declarationKeyword.toList) }

/-- The value of an expression. -/
def evaluateExpression (s : Session W) (expression : String) : Attempt W Float :=
  Expression.value s.table s.settings.autoBalance expression.toList

/-- A name for a new symbol must not be reserved, must be a name, and must be free. -/
def checkNewName (s : Session W) (name : String) : Except StatementError Unit :=
  if Builtin.isName name || name == s.settings.declarationKeyword then
    .error (.reservedName name)
  else if !Token.isIdentifier name then .error (.invalidName name)
  else if s.table.contains name then .error (.duplicateName name)
  else .ok ()

/-- What stands after the keyword and a blank, if the left side is a declaration. -/
def declaredName? (s : Session W) (target : List Char) : Option String :=
  let keyword := s.settings.declarationKeyword.toList
  if keyword.isPrefixOf target then
    match target.drop keyword.length with
    | c :: rest => if Text.isBlank c then some (String.ofList (Text.trim (c :: rest))) else none
    | [] => none
  else none

/-- The left side of a statement. -/
inductive Target where
  | declaration (name : String)
  | symbol (name : String)
  deriving DecidableEq, Repr

/-- The left side, if the statement may go on to its right side. -/
def target (s : Session W) (left : List Char) : Except StatementError Target :=
  let name := fold left
  match s.declaredName? name with
  | some new => do
      s.checkNewName new
      return .declaration new
  | none =>
      match s.table.get (String.ofList name) with
      | some (.constant _) => .error (.constantAssignment (String.ofList name))
      | none => .error (.undeclaredName (String.ofList name))
      | some _ => .ok (.symbol (String.ofList name))

/-- Writes a value to the left side. -/
def store (s : Session W) (value : Float) :
    Target → Act W (Except StatementError Float × Session W)
  | .declaration name =>
      match s.table.declare name value with
      | .error e => return (.error e, s)
      | .ok table => do
          Act.record (.declared name value)
          return (.ok value, { s with table := table })
  | .symbol name => do
      match ← s.table.assign name value with
      | .error e => return (.error e, s)
      | .ok table =>
          Act.record (.assigned name value)
          return (.ok value, { s with table := table })

/-- Evaluates the right side and writes its value to the left side. -/
def assign (s : Session W) (left right : List Char) :
    Act W (Except StatementError Float × Session W) :=
  match s.target left with
  | .error e => return (.error e, s)
  | .ok target => do
      match ← (Expression.value s.table s.settings.autoBalance right).run with
      | .error e => return (.error e, s)
      | .ok value => s.store value target

/-- The text before and after the first equals sign. -/
def splitEquals : List Char → Option (List Char × List Char)
  | [] => none
  | c :: rest =>
      if c = '=' then some ([], rest)
      else (splitEquals rest).map fun (before, after) => (c :: before, after)

/-- Evaluates a statement and answers its value and the session after it. -/
def evaluate (s : Session W) (statement : String) :
    Act W (Except StatementError Float × Session W) :=
  match splitEquals statement.toList with
  | none => do
      let answer ← (s.evaluateExpression statement).run
      return (answer, s)
  | some (left, right) =>
      if right.contains '=' then
        return (.error (.multipleAssignment (String.ofList (Text.trim statement.toList))), s)
      else s.assign left right

/-- Binds a name to an accessor. -/
def register (s : Session W) (name : String) (a : Accessor W) :
    Act W (Except StatementError Unit × Session W) :=
  let folded := String.ofList (fold name.toList)
  match s.checkNewName folded with
  | .error e => return (.error e, s)
  | .ok () =>
      match s.table.insertAccessor folded a with
      | .error e => return (.error e, s)
      | .ok table => do
          Act.record (.registered folded)
          return (.ok (), { s with table := table })

/-- Unbinds an accessor, and answers whether there was one. -/
def unregister (s : Session W) (name : String) : Bool × Session W :=
  let (removed, table) := s.table.removeAccessor name
  (removed, { s with table := table })

/-- Removes a variable, and answers whether there was one. -/
def removeVariable (s : Session W) (name : String) : Bool × Session W :=
  let (removed, table) := s.table.removeVariable name
  (removed, { s with table := table })

def clearAccessors (s : Session W) : Session W :=
  { s with table := s.table.clearAccessors }

def clearVariables (s : Session W) : Session W :=
  { s with table := s.table.clearVariables }

end Session
end RuleSheet
