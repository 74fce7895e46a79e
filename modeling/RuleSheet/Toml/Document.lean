import RuleSheet.Toml.Quoted
import RuleSheet.Toml.Scalar

/-!
# TOML documents

A document is a list of lines: pairs of a key and a value, headers of tables and
of elements of arrays of tables, blank lines and comments. The pairs belong to
the header above them, and those above the first header to the document itself.
A document that breaks a rule has no value at all.

Keys have fewer than eighty parts, and values are nested fewer than eighty deep.
The counts that bound the repetitions over elements and lines are lengths of the
text; every repetition takes at least one character.
-/
namespace RuleSheet.Toml

def isBareKeyChar (c : Char) : Bool :=
  c.isAlphanum || c == '_' || c == '-'

/-- One part of a key. -/
def keyPart? (cs : List Char) : Option (String × List Char) :=
  match cs with
  | '"' :: rest => (basicText rest).map fun (text, after) => (String.ofList text, after)
  | '\'' :: rest => (literalText rest).map fun (text, after) => (String.ofList text, after)
  | _ =>
      let bare := cs.takeWhile isBareKeyChar
      if bare.isEmpty then none else some (String.ofList bare, cs.dropWhile isBareKeyChar)

/-- A key of at most `limit` parts with dots between them and blanks around each: the
path to its last part, and that part. -/
def key? : Nat → List Char → Option ((List String × String) × List Char)
  | 0, _ => none
  | limit + 1, cs => do
      let (part, rest) ← keyPart? (skipBlanks cs)
      match skipBlanks rest with
      | '.' :: tail =>
          let ((path, last), after) ← key? limit tail
          return ((part :: path, last), after)
      | after => return (([], part), after)

def partLimit : Nat := 79
def nestingLimit : Nat := 79

/-- A key, an equals sign and a value. -/
def pair? (value : List Char → Option (Value × List Char)) (cs : List Char) :
    Option ((List String × String × Value) × List Char) := do
  let ((path, key), rest) ← key? partLimit cs
  let rest ← expect? '=' rest
  let (v, after) ← value (skipBlanks rest)
  return ((path, key, v), after)

/-- The elements of an array after its opening bracket, at most `count` of them. A
comma may follow the last. -/
def elements? (value : List Char → Option (Value × List Char)) :
    Nat → List Char → Option (List Value × List Char)
  | 0, _ => none
  | count + 1, cs => do
      match ← skipLayout false cs with
      | ']' :: rest => return ([], rest)
      | cs =>
          let (v, rest) ← value cs
          match ← skipLayout false rest with
          | ',' :: tail =>
              let (vs, after) ← elements? value count tail
              return (v :: vs, after)
          | ']' :: after => return ([v], after)
          | _ => none

/-- The pairs of a table in braces after the first brace, at most `count` of them. No
comma follows the last, and all stand on one line. -/
def members? (value : List Char → Option (Value × List Char)) :
    Nat → List Char → Option (Entries.Pairs × List Char)
  | 0, _ => none
  | count + 1, cs => do
      let (p, rest) ← pair? value cs
      match skipBlanks rest with
      | ',' :: tail =>
          let (ps, after) ← members? value count tail
          return (p :: ps, after)
      | '}' :: after => return ([p], after)
      | _ => none

/-- A value with at most `depth` arrays and tables around its innermost parts. -/
def value? (depth : Nat) (cs : List Char) : Option (Value × List Char) :=
  match depth, cs with
  | 0, '[' :: _ | 0, '{' :: _ => none
  | depth + 1, '[' :: rest =>
      (elements? (value? depth) (rest.length + 1) rest).map fun (vs, after) => (.array vs, after)
  | depth + 1, '{' :: rest =>
      match skipBlanks rest with
      | '}' :: after => some (.table .braces [], after)
      | _ => do
          let (pairs, after) ← members? (value? depth) (rest.length + 1) rest
          let entries ← Entries.insertAll pairs []
          return (.table .braces entries, after)
  | _, '"' :: _ | _, '\'' :: _ =>
      (quoted? cs).map fun (text, after) => (.string (String.ofList text), after)
  | _, 't' :: _ | _, 'f' :: _ => boolean? cs
  | _, _ => numeric? cs

inductive Line where
  | blank
  | pair (path : List String) (key : String) (value : Value)
  | table (path : List String) (key : String)
  | element (path : List String) (key : String)

/-- One line without its end. -/
def line? (cs : List Char) : Option (Line × List Char) :=
  match skipBlanks cs with
  | '[' :: '[' :: rest => do
      let ((path, key), rest) ← key? partLimit rest
      let rest ← expect? ']' rest
      let rest ← expect? ']' rest
      return (.element path key, rest)
  | '[' :: rest => do
      let ((path, key), rest) ← key? partLimit rest
      let rest ← expect? ']' rest
      return (.table path key, rest)
  | [] => some (.blank, [])
  | c :: rest =>
      if c = '#' ∨ c = '\n' ∨ c = '\r' then some (.blank, c :: rest)
      else do
        let ((path, key, v), after) ← pair? (value? nestingLimit) (c :: rest)
        return (.pair path key v, after)

/-- The lines of a text, at most `count` of them. -/
def lines? : Nat → List Char → Option (List Line)
  | _, [] => some []
  | 0, _ => none
  | count + 1, cs => do
      let (line, rest) ← line? cs
      let rest ← lineEnd? rest
      return line :: (← lines? count rest)

/-- Where pairs go: to the document, or to the table of a header. -/
inductive Section where
  | document
  | table (path : List String) (key : String)
  | element (path : List String) (key : String)

/-- Adds a section with its pairs to the document. -/
def Section.addTo (entries : Entries) (pairs : Entries.Pairs) : Section → Option Entries
  | .document => Entries.insertAll pairs entries
  | .table path key => Entries.addTable path key pairs entries
  | .element path key => Entries.addElement path key pairs entries

/-- Adds the lines to a document. `pairs` are those of the present section so far. -/
def assemble (entries : Entries) (here : Section) (pairs : Entries.Pairs) :
    List Line → Option Entries
  | [] => here.addTo entries pairs
  | .blank :: rest => assemble entries here pairs rest
  | .pair path key v :: rest => assemble entries here (pairs ++ [(path, key, v)]) rest
  | .table path key :: rest => do
      assemble (← here.addTo entries pairs) (.table path key) [] rest
  | .element path key :: rest => do
      assemble (← here.addTo entries pairs) (.element path key) [] rest

/-- A byte order mark at the front is not part of the text. -/
def dropMark : List Char → List Char
  | '\ufeff' :: rest => rest
  | cs => cs

/-- The entries of a document. -/
def document? (text : List Char) : Option Entries := do
  let cs := dropMark text
  assemble [] .document [] (← lines? (cs.length + 1) cs)

end RuleSheet.Toml
