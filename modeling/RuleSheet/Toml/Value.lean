/-!
# TOML values and how tables grow

A table remembers how it came about, because that decides what may still be
added to it. A table in braces is complete. A table with a header of its own
takes the pairs below that header and no second header. A table that is only
named on the way to another may still get its header. A table that a dotted key
made may grow by further dotted keys in the same place, and gets no header.

Every function here answers nothing when the addition is not allowed.
-/
namespace RuleSheet.Toml

inductive Origin where
  | braces | header | passage | dotted
  deriving DecidableEq, Repr

inductive Value where
  | string (s : String)
  | integer (n : Int)
  | float (x : Float)
  | boolean (b : Bool)
  | moment (text : String)
  | array (items : List Value)
  | table (origin : Origin) (entries : List (String × Value))
  /-- An array of tables with headers of their own, which is never empty. -/
  | tables (earlier : List (List (String × Value))) (last : List (String × Value))

abbrev Entries := List (String × Value)

namespace Entries

/-- Replaces what stands under a key; `f` sees what is there and may refuse. -/
def alter (key : String) (f : Option Value → Option Value) : Entries → Option Entries
  | [] => (f none).map fun v => [(key, v)]
  | (k, v) :: rest =>
      if k = key then (f (some v)).map fun w => (k, w) :: rest
      else (alter key f rest).map ((k, v) :: ·)

/-- Adds a value under a dotted key: through the tables of `path` to `key`. The last
table on the way must have been made by dotted keys. -/
def insert (key : String) (value : Value) : List String → Entries → Option Entries
  | [], entries =>
      alter key (fun
        | none => some value
        | some _ => none) entries
  | p :: path, entries =>
      alter p (fun
        | none => (insert key value path []).map (.table .dotted)
        | some (.table .dotted inner) => (insert key value path inner).map (.table .dotted)
        | some (.table .passage inner) =>
            if path.isEmpty then none else (insert key value path inner).map (.table .passage)
        | some (.tables earlier last) =>
            if path.isEmpty then none else (insert key value path last).map (.tables earlier)
        | some _ => none) entries

/-- What stands under a header: keys with their paths, and values. -/
abbrev Pairs := List (List String × String × Value)

def insertAll (pairs : Pairs) (entries : Entries) : Option Entries :=
  pairs.foldlM (fun entries (path, key, value) => insert key value path entries) entries

/-- Goes along the path of a header and changes what stands under its last key. -/
def alterAt (key : String) (f : Option Value → Option Value) :
    List String → Entries → Option Entries
  | [], entries => alter key f entries
  | p :: path, entries =>
      alter p (fun
        | none => (alterAt key f path []).map (.table .passage)
        | some (.table .braces _) => none
        | some (.table origin inner) => (alterAt key f path inner).map (.table origin)
        | some (.tables earlier last) => (alterAt key f path last).map (.tables earlier)
        | some _ => none) entries

/-- The table of a header and the pairs below it. -/
def addTable (path : List String) (key : String) (pairs : Pairs) : Entries → Option Entries :=
  alterAt key (fun
    | none => (insertAll pairs []).map (.table .header)
    | some (.table .passage inner) => (insertAll pairs inner).map (.table .header)
    | some _ => none) path

/-- One more table of an array of tables, and the pairs below its header. -/
def addElement (path : List String) (key : String) (pairs : Pairs) : Entries → Option Entries :=
  alterAt key (fun
    | none => (insertAll pairs []).map (.tables [])
    | some (.tables earlier last) => (insertAll pairs []).map (.tables (earlier ++ [last]))
    | some _ => none) path

end Entries
end RuleSheet.Toml
