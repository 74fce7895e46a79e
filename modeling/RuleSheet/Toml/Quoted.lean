import RuleSheet.Toml.Layout

/-!
# Quoted text in TOML

Text between double quotes has escapes; text between single quotes has none.
Three quotes open a text of several lines: a line end right after them is
dropped, each line end inside it counts as one line feed, and up to two quotes
may stand right before the three that close it. A backslash at the end of a line
drops the line end and all blanks and line ends after it.
-/
namespace RuleSheet.Toml

def hexDigit? (c : Char) : Option Nat :=
  if c.isDigit then some (c.toNat - '0'.toNat)
  else if 'a' ≤ c ∧ c ≤ 'f' then some (c.toNat - 'a'.toNat + 10)
  else if 'A' ≤ c ∧ c ≤ 'F' then some (c.toNat - 'A'.toNat + 10)
  else none

/-- The character with a code point in hexadecimal, if there is such a character. -/
def codePoint? (digits : List Char) : Option Char := do
  let n ← digits.foldlM (fun n c => (hexDigit? c).map (16 * n + ·)) 0
  if h : n.isValidChar then some (Char.ofNatAux n h) else none

def simpleEscape? : Char → Option Char
  | 'b' => some '\x08'
  | 't' => some '\t'
  | 'n' => some '\n'
  | 'f' => some '\x0c'
  | 'r' => some '\r'
  | '"' => some '"'
  | '\\' => some '\\'
  | _ => none

/-- A character put before the text that has been read. -/
def andThen (c : Char) (text : Option (List Char × List Char)) :
    Option (List Char × List Char) :=
  text.map fun (cs, rest) => (c :: cs, rest)

/-- A text on one line up to its double quote, and what follows. -/
def basicText : List Char → Option (List Char × List Char)
  | [] => none
  | '"' :: rest => some ([], rest)
  | '\\' :: 'u' :: a :: b :: c :: d :: rest => do
      andThen (← codePoint? [a, b, c, d]) (basicText rest)
  | '\\' :: 'U' :: a :: b :: c :: d :: e :: f :: g :: h :: rest => do
      andThen (← codePoint? [a, b, c, d, e, f, g, h]) (basicText rest)
  | '\\' :: e :: rest => do andThen (← simpleEscape? e) (basicText rest)
  | c :: rest => if isPrintable c && c != '\\' then andThen c (basicText rest) else none

/-- Where a text of several lines stands: in the text, between a backslash and the
line end after it, or in the blanks that are dropped after that. -/
inductive Fold where
  | text | seeking | dropping
  deriving DecidableEq, Repr

/-- A text of several lines up to its three double quotes, and what follows. -/
def longText : Fold → List Char → Option (List Char × List Char)
  | _, [] => none
  | .seeking, c :: rest =>
      if isBlank c then longText .seeking rest
      else if c = '\n' then longText .dropping rest
      else if c = '\r' ∧ rest.head? = some '\n' then longText .seeking rest
      else none
  | .dropping, ' ' :: rest => longText .dropping rest
  | .dropping, '\t' :: rest => longText .dropping rest
  | .dropping, '\n' :: rest => longText .dropping rest
  | .dropping, '\r' :: '\n' :: rest => longText .dropping rest
  | _, '\r' :: '\n' :: rest => andThen '\n' (longText .text rest)
  | _, '\n' :: rest => andThen '\n' (longText .text rest)
  | _, '"' :: '"' :: '"' :: '"' :: '"' :: rest => some (['"', '"'], rest)
  | _, '"' :: '"' :: '"' :: '"' :: rest => some (['"'], rest)
  | _, '"' :: '"' :: '"' :: rest => some ([], rest)
  | _, '\\' :: 'u' :: a :: b :: c :: d :: rest => do
      andThen (← codePoint? [a, b, c, d]) (longText .text rest)
  | _, '\\' :: 'U' :: a :: b :: c :: d :: e :: f :: g :: h :: rest => do
      andThen (← codePoint? [a, b, c, d, e, f, g, h]) (longText .text rest)
  | _, '\\' :: e :: rest =>
      if isBlank e || e == '\n' || e == '\r' then longText .seeking (e :: rest)
      else do andThen (← simpleEscape? e) (longText .text rest)
  | _, c :: rest => if isPrintable c && c != '\\' then andThen c (longText .text rest) else none

/-- A literal text on one line up to its single quote, and what follows. -/
def literalText : List Char → Option (List Char × List Char)
  | [] => none
  | '\'' :: rest => some ([], rest)
  | c :: rest => if isPrintable c then andThen c (literalText rest) else none

/-- A literal text of several lines up to its three single quotes, and what follows. -/
def longLiteral : List Char → Option (List Char × List Char)
  | [] => none
  | '\'' :: '\'' :: '\'' :: '\'' :: '\'' :: rest => some (['\'', '\''], rest)
  | '\'' :: '\'' :: '\'' :: '\'' :: rest => some (['\''], rest)
  | '\'' :: '\'' :: '\'' :: rest => some ([], rest)
  | '\r' :: '\n' :: rest => andThen '\n' (longLiteral rest)
  | '\n' :: rest => andThen '\n' (longLiteral rest)
  | c :: rest => if isPrintable c then andThen c (longLiteral rest) else none

def dropNewline (cs : List Char) : List Char :=
  (newline? cs).getD cs

/-- A text in quotes of any of the four kinds. -/
def quoted? : List Char → Option (List Char × List Char)
  | '"' :: '"' :: '"' :: rest => longText .text (dropNewline rest)
  | '\'' :: '\'' :: '\'' :: rest => longLiteral (dropNewline rest)
  | '"' :: rest => basicText rest
  | '\'' :: rest => literalText rest
  | _ => none

end RuleSheet.Toml
