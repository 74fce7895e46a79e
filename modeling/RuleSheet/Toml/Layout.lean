/-!
# Blanks, line ends and comments in TOML

Only the space and the tab are blanks. A line ends in a line feed, with or
without a carriage return before it. A comment runs to the end of its line and
holds no control character but the tab.
-/
namespace RuleSheet.Toml

def isBlank (c : Char) : Bool :=
  c == ' ' || c == '\t'

/-- A character that may stand in a comment, and in a string if it is no delimiter. -/
def isPrintable (c : Char) : Bool :=
  c == '\t' || (0x20 ≤ c.toNat && c.toNat ≠ 0x7f)

def skipBlanks (cs : List Char) : List Char :=
  cs.dropWhile isBlank

/-- What follows a line end. -/
def newline? : List Char → Option (List Char)
  | '\n' :: rest => some rest
  | '\r' :: '\n' :: rest => some rest
  | _ => none

/-- What follows the rest of a line that may hold blanks and a comment only. The last
line needs no line end. -/
def lineEnd? (cs : List Char) : Option (List Char) :=
  let rest := match skipBlanks cs with
    | '#' :: tail => tail.dropWhile isPrintable
    | tail => tail
  if rest.isEmpty then some [] else newline? rest

/-- Skips blanks, line ends and whole comments; `inComment` after the sign. -/
def skipLayout : Bool → List Char → Option (List Char)
  | false, '#' :: rest => skipLayout true rest
  | _, '\n' :: rest => skipLayout false rest
  | _, '\r' :: '\n' :: rest => skipLayout false rest
  | false, c :: rest => if isBlank c then skipLayout false rest else some (c :: rest)
  | true, c :: rest => if isPrintable c then skipLayout true rest else none
  | false, [] => some []
  | true, [] => none

end RuleSheet.Toml
