import RuleSheet.Number.Literal
import RuleSheet.Toml.Value

/-!
# Numbers, dates and times in TOML

Integers are decimal, with a sign and without leading zeros, or hexadecimal,
octal or binary after a prefix, and must fit in 64 bits. Floats have a fraction
or an exponent, or are one of the words `inf` and `nan`; one that is too large is
refused, unless it is negative. An underscore may stand between two digits. A
date, a time and the two joined are checked field by field, and leap seconds are
allowed.
-/
namespace RuleSheet.Toml

/-- One digit or more, with single underscores between them; the digits alone. -/
def digitRun? (isDigit : Char → Bool) : List Char → Option (List Char × List Char)
  | [] => none
  | c :: rest => if isDigit c then some (more c rest) else none
where
  more (c : Char) : List Char → List Char × List Char
    | '_' :: d :: rest =>
        if isDigit d then let (ds, after) := more d rest; (c :: ds, after)
        else ([c], '_' :: d :: rest)
    | d :: rest =>
        if isDigit d then let (ds, after) := more d rest; (c :: ds, after)
        else ([c], d :: rest)
    | [] => ([c], [])

/-- A sign that is kept, and what follows. -/
def sign : List Char → List Char × List Char
  | '+' :: rest => (['+'], rest)
  | '-' :: rest => (['-'], rest)
  | cs => ([], cs)

/-- A sign and decimal digits. A leading zero stands alone. -/
def decimal? (cs : List Char) : Option (List Char × List Char) :=
  let (s, rest) := sign cs
  match rest with
  | '0' :: after => some (s ++ ['0'], after)
  | _ => (digitRun? Char.isDigit rest).map fun (digits, after) => (s ++ digits, after)

/-- An exponent, in the spelling that numbers are read from. -/
def exponent? : List Char → Option (List Char × List Char)
  | c :: rest =>
      if c = 'e' ∨ c = 'E' then
        let (s, digits) := sign rest
        (digitRun? Char.isDigit digits).map fun (ds, after) => ('e' :: s ++ ds, after)
      else none
  | [] => none

/-- A fraction and an exponent, or one of them. -/
def fraction? : List Char → Option (List Char × List Char)
  | '.' :: rest => do
      let (digits, after) ← digitRun? Char.isDigit rest
      match exponent? after with
      | some (e, final) => return ('.' :: digits ++ e, final)
      | none => return ('.' :: digits, after)
  | cs => exponent? cs

def special? (cs : List Char) : Option (Value × List Char) :=
  let (s, rest) := sign cs
  let signed (x : Float) := Value.float (if s = ['-'] then -x else x)
  match rest with
  | 'i' :: 'n' :: 'f' :: after => some (signed Number.infinity, after)
  | 'n' :: 'a' :: 'n' :: after => some (signed Number.notANumber, after)
  | _ => none

def float? (cs : List Char) : Option (Value × List Char) :=
  match decimal? cs with
  | none => special? cs
  | some (whole, rest) => do
      let (tail, after) ← fraction? rest
      let x ← Number.read? (whole ++ tail)
      if x == Number.infinity then none else some (.float x, after)

/-- The digits of a run in some base, most significant first. -/
def ofBase (base : Nat) (digits : List Char) : Nat :=
  digits.foldl (fun n c => base * n + digitValue c) 0
where
  digitValue (c : Char) : Nat :=
    if c.isDigit then c.toNat - '0'.toNat else c.toLower.toNat - 'a'.toNat + 10

/-- An integer of 64 bits, one of them for the sign. -/
def fitting (n : Int) (rest : List Char) : Option (Value × List Char) :=
  if -0x8000000000000000 ≤ n ∧ n ≤ 0x7fffffffffffffff then some (.integer n, rest) else none

def prefixed? (base : Nat) (isDigit : Char → Bool) (cs : List Char) :
    Option (Value × List Char) := do
  let (digits, rest) ← digitRun? isDigit cs
  fitting (ofBase base digits) rest

def integer? : List Char → Option (Value × List Char)
  | '0' :: 'x' :: rest => prefixed? 16 (fun c => c.isDigit || ('a' ≤ c.toLower && c.toLower ≤ 'f')) rest
  | '0' :: 'o' :: rest => prefixed? 8 (fun c => '0' ≤ c && c ≤ '7') rest
  | '0' :: 'b' :: rest => prefixed? 2 (fun c => c == '0' || c == '1') rest
  | cs => do
      let (text, rest) ← decimal? cs
      let (s, digits) := sign text
      fitting (if s = ['-'] then -(ofBase 10 digits : Int) else ofBase 10 digits) rest

/-- A number of exactly two digits between two bounds. -/
def twoDigits? (least greatest : Nat) : List Char → Option (Nat × List Char)
  | a :: b :: rest =>
      let n := ofBase 10 [a, b]
      if a.isDigit && b.isDigit && least ≤ n && n ≤ greatest then some (n, rest) else none
  | _ => none

def expect? (c : Char) : List Char → Option (List Char)
  | d :: rest => if c = d then some rest else none
  | [] => none

def daysIn (year month : Nat) : Nat :=
  if month = 2 then
    if year % 4 = 0 ∧ (year % 100 ≠ 0 ∨ year % 400 = 0) then 29 else 28
  else if month = 4 ∨ month = 6 ∨ month = 9 ∨ month = 11 then 30
  else 31

/-- What follows a date. -/
def date? (cs : List Char) : Option (List Char) := do
  let (century, rest) ← twoDigits? 0 99 cs
  let (years, rest) ← twoDigits? 0 99 rest
  let rest ← expect? '-' rest
  let (month, rest) ← twoDigits? 1 12 rest
  let rest ← expect? '-' rest
  let (_, rest) ← twoDigits? 1 (daysIn (100 * century + years) month) rest
  return rest

/-- What follows a time of day. -/
def time? (cs : List Char) : Option (List Char) := do
  let (_, rest) ← twoDigits? 0 23 cs
  let rest ← expect? ':' rest
  let (_, rest) ← twoDigits? 0 59 rest
  let rest ← expect? ':' rest
  let (_, rest) ← twoDigits? 0 60 rest
  match rest with
  | '.' :: d :: after => if d.isDigit then return after.dropWhile Char.isDigit else return rest
  | _ => return rest

/-- What follows an offset from universal time, if there is one. -/
def skipOffset (cs : List Char) : List Char :=
  match cs with
  | 'Z' :: rest | 'z' :: rest => rest
  | '+' :: rest | '-' :: rest =>
      (do
        let (_, rest) ← twoDigits? 0 23 rest
        let rest ← expect? ':' rest
        let (_, rest) ← twoDigits? 0 59 rest
        return rest).getD cs
  | _ => cs

/-- What follows a time of day and its offset after a date, if there is a time. -/
def skipTime (cs : List Char) : List Char :=
  match cs with
  | c :: rest =>
      if c = 'T' ∨ c = 't' ∨ c = ' ' then ((time? rest).map skipOffset).getD cs else cs
  | [] => []

def moment? (cs : List Char) : Option (Value × List Char) := do
  let rest ← (date? cs).map skipTime <|> time? cs
  return (.moment (String.ofList (cs.take (cs.length - rest.length))), rest)

/-- A number, a date or a time. -/
def numeric? (cs : List Char) : Option (Value × List Char) :=
  moment? cs <|> float? cs <|> integer? cs

def boolean? : List Char → Option (Value × List Char)
  | 't' :: 'r' :: 'u' :: 'e' :: rest => some (.boolean true, rest)
  | 'f' :: 'a' :: 'l' :: 's' :: 'e' :: rest => some (.boolean false, rest)
  | _ => none

end RuleSheet.Toml
