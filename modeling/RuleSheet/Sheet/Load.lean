import RuleSheet.Sheet
import RuleSheet.Toml.Document

/-!
# Sheets in TOML, and sheets from files

A TOML sheet has an array of strings under `constraints` and two tables of
settings, `engine` and `runtime`. All of them and all of their fields may be
left out, and what else the document holds is passed over. A field of the wrong
type makes the sheet unreadable. Settings may also be given as an array of their
fields in order.

A file is read as TOML if its extension is exactly `toml`, and otherwise as
plain text with the default settings.
-/
namespace RuleSheet

inductive SheetError where
  | notFound
  | notText
  | badToml
  deriving DecidableEq, Repr

namespace Sheet
open Toml

def stringField : Option Value → String → Option String
  | none, default => some default
  | some (.string s), _ => some s
  | some _, _ => none

def boolField : Option Value → Bool → Option Bool
  | none, default => some default
  | some (.boolean b), _ => some b
  | some _, _ => none

/-- The two settings of a table or an array: the values under two names, or the first
two elements. A date has neither. -/
def twoFields (first second : String) : Option Value → Option (Option Value × Option Value)
  | none => some (none, none)
  | some (.table _ entries) => some (entries.lookup first, entries.lookup second)
  | some (.tables earlier last) =>
      let all := (earlier ++ [last]).map (Value.table .header)
      some (all[0]?, all[1]?)
  | some (.array items) => some (items[0]?, items[1]?)
  | some (.moment _) => some (none, none)
  | some _ => none

def engineSettings (v : Option Value) : Option EngineSettings := do
  let (keyword, balance) ← twoFields "declaration_keyword" "auto_balance" v
  let default : EngineSettings := {}
  return {
    declarationKeyword := ← stringField keyword default.declarationKeyword
    autoBalance := ← boolField balance default.autoBalance }

def passSettings (v : Option Value) : Option PassSettings := do
  let (comment, reset) ← twoFields "comment_prefix" "reset_variables" v
  let default : PassSettings := {}
  return {
    commentPrefix := ← stringField comment default.commentPrefix
    resetVariables := ← boolField reset default.resetVariables }

def constraintList : Option Value → Option (List String)
  | none => some []
  | some (.array items) => items.mapM fun
      | .string s => some s
      | _ => none
  | some _ => none

/-- A TOML sheet. -/
def ofToml (text : String) : Except SheetError Sheet :=
  let sheet : Option Sheet := do
    let entries ← document? text.toList
    return {
      constraints := ← constraintList (entries.lookup "constraints")
      engine := ← engineSettings (entries.lookup "engine")
      passes := ← passSettings (entries.lookup "runtime") }
  match sheet with
  | some s => .ok s
  | none => .error .badToml

/-- What stands after the last point of a file name, unless the name begins with it. -/
def extension? (fileName : List Char) : Option (List Char) :=
  let after := (fileName.reverse.takeWhile (· ≠ '.')).reverse
  if after.length + 1 < fileName.length then some after else none

/-- The sheet in a file with this name, which holds these bytes if it exists. -/
def ofFile (fileName : String) (bytes : Option ByteArray) : Except SheetError Sheet :=
  match bytes with
  | none => .error .notFound
  | some bytes =>
      match String.fromUTF8? bytes with
      | none => .error .notText
      | some text =>
          if extension? fileName.toList = some "toml".toList then ofToml text
          else .ok (ofText text {})

end Sheet
end RuleSheet
