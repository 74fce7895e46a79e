import RuleSheet.Number.Truth

/-!
# The built-in functions

All built-in functions take one number and never fail. Each has a canonical
name, and some have aliases; the names are small letters and digits, and they
are reserved. `print` answers its argument, and whoever evaluates it records
the number; the record is not kept here.
-/
namespace RuleSheet
open Number

inductive Builtin where
  | sqrt | exp | abs | floor | ceil | round | sign | log | log10 | log2 | neg | print
  | sin | cos | tan | asin | acos | atan | sinh | cosh | tanh | asinh | acosh | atanh
  | rad | deg
  | not | bool | iszero | ispositive | isnegative | isnan | isinf
  deriving DecidableEq, Repr

namespace Builtin

/-- Arithmetic first, then trigonometry, then logic. -/
def all : List Builtin :=
  [sqrt, exp, abs, floor, ceil, round, sign, log, log10, log2, neg, print,
   sin, cos, tan, asin, acos, atan, sinh, cosh, tanh, asinh, acosh, atanh, rad, deg,
   not, bool, iszero, ispositive, isnegative, isnan, isinf]

def name : Builtin → String
  | sqrt => "sqrt" | exp => "exp" | abs => "abs" | floor => "floor" | ceil => "ceil"
  | round => "round" | sign => "sign" | log => "log" | log10 => "log10" | log2 => "log2"
  | neg => "neg" | print => "print"
  | sin => "sin" | cos => "cos" | tan => "tan" | asin => "asin" | acos => "acos"
  | atan => "atan" | sinh => "sinh" | cosh => "cosh" | tanh => "tanh" | asinh => "asinh"
  | acosh => "acosh" | atanh => "atanh" | rad => "rad" | deg => "deg"
  | not => "not" | bool => "bool" | iszero => "iszero" | ispositive => "ispositive"
  | isnegative => "isnegative" | isnan => "isnan" | isinf => "isinf"

def aliases : Builtin → List String
  | sign => ["sgn"]
  | log => ["ln"]
  | rad => ["radians"]
  | deg => ["degrees"]
  | _ => []

/-- The canonical name and the aliases. -/
def names (f : Builtin) : List String :=
  f.name :: f.aliases

/-- The function with this name or alias, exactly as written. -/
def ofName? (name : String) : Option Builtin :=
  all.find? fun f => f.names.contains name

theorem mem_all (f : Builtin) : f ∈ all := by
  cases f <;> decide

/-- A text that is the name or an alias of a function. -/
def isName (name : String) : Bool :=
  (ofName? name).isSome

theorem of_isName {p : String → Prop} (h : ∀ f ∈ all, ∀ m ∈ f.names, p m) {n : String}
    (hn : isName n = true) : p n := by
  obtain ⟨f, hf⟩ := Option.isSome_iff_exists.mp hn
  have hmem : n ∈ f.names := by simpa using List.find?_some hf
  exact h f (mem_all f) n hmem

/-- The sign of a number, with zeros and the values that are not numbers kept. -/
def signOf (x : Float) : Float :=
  if x > 0 then 1 else if x < 0 then -1 else x * 0

/-- Negation that never answers a negative zero. -/
def negation (x : Float) : Float :=
  if x == 0 then 0 else -x

/-- The logarithm of `1 + x`, accurate also where `1 + x` rounds to one. -/
def logOnePlus (x : Float) : Float :=
  let u := 1 + x
  if u == 1 then x
  else if u.isInf then u.log
  else u.log * (x / (u - 1))

/-- The inverse of the hyperbolic tangent, as half the logarithm of
`(1 + x) / (1 - x)`. Close to minus one the quotient loses digits that it keeps close
to one, so the function is not odd to the last digit. -/
def inverseTanh (x : Float) : Float :=
  0.5 * logOnePlus (2 * x / (1 - x))

def pi : Float := 3.141592653589793

/-- The value of a function at a number. The inverses of the hyperbolic sine and cosine are
those of the mathematics library: close to one they keep the digits that the logarithms in
their definitions lose, and they are finite up to the largest number. -/
def apply : Builtin → Float → Float
  | sqrt, x => x.sqrt
  | exp, x => x.exp
  | abs, x => x.abs
  | floor, x => x.floor
  | ceil, x => x.ceil
  | round, x => x.round
  | sign, x => signOf x
  | log, x => x.log
  | log10, x => x.log10
  | log2, x => x.log2
  | neg, x => negation x
  | print, x => x
  | sin, x => x.sin
  | cos, x => x.cos
  | tan, x => x.tan
  | asin, x => x.asin
  | acos, x => x.acos
  | atan, x => x.atan
  | sinh, x => x.sinh
  | cosh, x => x.cosh
  | tanh, x => x.tanh
  | asinh, x => x.asinh
  | acosh, x => x.acosh
  | atanh, x => inverseTanh x
  | rad, x => x * (pi / 180)
  | deg, x => x * (180 / pi)
  | not, x => flag (!holds x)
  | bool, x => flag (holds x)
  | iszero, x => flag (x == 0)
  | ispositive, x => flag (x > 0)
  | isnegative, x => flag (x < 0)
  | isnan, x => flag x.isNaN
  | isinf, x => flag x.isInf

end Builtin
end RuleSheet
