import RuleSheet.Proofs.ReadBack
import RuleSheet.Proofs.Text.Trim

/-!
# Every symbol can be used under its name

Whatever a host does, the table of a session keeps the built-in constants as they were, and
its variables and accessors can all be used under the names that the table keeps them by. An
expression scans such a name as one name and reads the symbol. A statement with the name on
its left side is an assignment, and writes the symbol. No name of a variable or an accessor
is lost to a function, to the keyword, or to a spelling that is kept in another way.
-/
namespace RuleSheet
open Text
variable {W : Type}

namespace Expression

theorem plainValue_blank_cons {c : Char} (hc : isBlank c = true) (t : Table W)
    (autoBalance : Bool) (cs : List Char) :
    plainValue t autoBalance (c :: cs) = plainValue t autoBalance cs := by
  have hnormal : Token.normalize (c :: cs) = Token.normalize cs := by
    rw [Token.normalize, dropBlanks, List.filter_cons_of_neg (by simp [hc])]
    rfl
  rw [plainValue, Token.scan, hnormal]
  rfl

theorem value_blank_cons {c : Char} (hc : isBlank c = true) (t : Table W) (autoBalance : Bool)
    (cs : List Char) : value t autoBalance (c :: cs) = value t autoBalance cs := by
  have hquestion : c ≠ '?' := by
    rintro rfl
    revert hc
    decide
  cases hq : splitQuestion cs with
  | none =>
      have hplain := splitQuestion_eq_none_iff.mp hq
      rw [value_plain hplain, value_plain (by simp [hplain, hquestion.symm]),
        plainValue_blank_cons hc]
  | some sides =>
      obtain ⟨condition, branches⟩ := sides
      have hq' : splitQuestion (c :: cs) = some (c :: condition, branches) := by
        rw [splitQuestion, if_neg hquestion, hq]
        rfl
      cases hcolon : splitColon 0 branches with
      | none =>
          have htrim : trim ([c] ++ cs ++ []) = trim cs :=
            trim_between (by simpa using hc) cs (by simp)
          rw [List.append_nil, List.singleton_append] at htrim
          rw [value_missing hq hcolon, value_missing hq' hcolon, htrim]
      | some answers =>
          rw [value_choice hq hcolon, value_choice hq' hcolon, plainValue_blank_cons hc]

end Expression

namespace Session

/-- The name is free to be used in expressions and on the left side of statements, and the
table keeps it as it is. -/
structure Usable (s : Session W) (k : String) : Prop where
  no_function : Builtin.isName k = false
  no_keyword : k ≠ s.settings.declarationKeyword
  key : Table.key k = k
  scan : ∀ autoBalance, Token.scan autoBalance k.toList = [.name k]

/-- To assign an expression to the name is to evaluate the expression and then to leave the
session and the host as `written` says of its value and the host so far. An expression
without a value changes nothing more, and a second equals sign is refused before anything
is evaluated. -/
def Writes (s : Session W) (k : String)
    (written : Float → Host W → Session W → Host W → Prop) : Prop :=
  ∀ e h,
    let out := (s.evaluate (k ++ " = " ++ e)).run h
    if '=' ∈ e.toList then
      out =
        ((.error (.multipleAssignment (String.ofList (trim (k ++ " = " ++ e).toList))), s), h)
    else
      match (s.evaluateExpression e).outcome h with
      | (.error error, j) => out = ((.error error, s), j)
      | (.ok x, j) => out.1.1 = .ok x ∧ written x j out.1.2 out.2

/-- A call neither adds nor removes a constant, and it does not change the value of one. -/
theorem Change.constant_iff {s : Session W} {t : Table W} (h : s.Change t) (k : String)
    (x : Float) : t.find? k = some (.constant x) ↔ s.table.find? k = some (.constant x) := by
  cases h with
  | same => exact Iff.rfl
  | added hname hsymbol ht =>
      rw [Table.find?_eq_some_iff, Table.find?_eq_some_iff, ht, List.mem_append,
        List.mem_singleton, or_iff_left]
      intro heq
      rw [← (Prod.mk.inj heq).2] at hsymbol
      rcases hsymbol with hvariable | haccessor
      · cases hvariable
      · cases haccessor
  | @replaced t i y z hi ht =>
      by_cases hk : k = i
      · rw [hk, ht.value, hi]
        simp
      · rw [ht.others k hk]
  | kept hp =>
      rw [Table.find?_eq_some_iff, Table.find?_eq_some_iff]
      constructor
      · exact fun hmem => (List.mem_filter.mp hmem).1
      · exact fun hmem => List.mem_filter.mpr ⟨hmem, hp k x hmem⟩

theorem Reachable.constant_iff {s : Session W} (hs : s.Reachable) (k : String) (x : Float) :
    s.table.find? k = some (.constant x) ↔ (k, x) ∈ Table.constants := by
  induction hs with
  | create settings =>
      change (Table.initial : Table W).find? k = _ ↔ _
      rw [Table.find?_eq_some_iff]
      constructor
      · intro hmem
        obtain ⟨⟨name, y⟩, hentry, heq⟩ := List.mem_map.mp hmem
        obtain ⟨hname, hvalue⟩ := Prod.mk.inj heq
        rw [← hname, ← Symbol.constant.inj hvalue]
        exact hentry
      · exact fun hmem => List.mem_map.mpr ⟨(k, x), hmem, rfl⟩
  | call c h _ ih => rw [(change_answer _ c h).1.constant_iff, ih]

variable {s : Session W} {k : String}

theorem Reachable.usable (hs : s.Reachable) {symbol : Symbol W}
    (hk : s.table.find? k = some symbol) (hsymbol : ∀ x, symbol ≠ .constant x) : s.Usable k := by
  have hid := hs.named.identifier (Option.isSome_of_eq_some hk)
  refine ⟨hid.unreserved, ?_, hid.key, fun autoBalance => ?_⟩
  · intro hkeyword
    rw [hkeyword] at hk
    obtain ⟨x, hx⟩ := hs.unbound _ hk
    exact hsymbol x hx
  · exact Token.scan_eq_name_iff.mpr (hid.scan hid.normalize)

/-- On the left side of a statement the name stands for its symbol and declares nothing. -/
theorem Reachable.target (hs : s.Reachable) {symbol : Symbol W}
    (hk : s.table.find? k = some symbol) (hsymbol : ∀ x, symbol ≠ .constant x) :
    s.target (k.toList ++ [' ']) = .ok (.symbol k) := by
  have hid := hs.named.identifier (Option.isSome_of_eq_some hk)
  have hspace : ∀ c ∈ [' '], isBlank c = true := List.forall_mem_singleton.mpr (by decide)
  have hfold : fold (k.toList ++ [' ']) = k.toList := by
    rw [fold_append_blanks _ hspace, fold, trim_eq_self hid.isBlank, lower_eq_self hid.settled]
  unfold Session.target
  dsimp only
  rw [hfold, declaredName?_of_identifier hid, String.ofList_toList, Table.get, hid.key, hk]
  cases symbol with
  | constant x => exact absurd rfl (hsymbol x)
  | «variable» x => rfl
  | accessor a => rfl

theorem writes_of_store {written : Float → Host W → Session W → Host W → Prop}
    (ht : s.target (k.toList ++ [' ']) = .ok (.symbol k)) (hequals : '=' ∉ k.toList)
    (hstore : ∀ x j, ∃ s' h', (s.store x (.symbol k)).run j = ((.ok x, s'), h') ∧
      written x j s' h') : s.Writes k written := by
  intro e h out
  have hsplit : splitEquals (k ++ " = " ++ e).toList =
      some (k.toList ++ [' '], ' ' :: e.toList) := by
    rw [splitEquals_eq_some_iff]
    simp [String.toList_append, hequals]
  split
  · rename_i he
    exact congrArg (·.run h) (evaluate_multiple hsplit (.tail _ he))
  · rename_i he
    have hout : out = (s.assign (k.toList ++ [' ']) (' ' :: e.toList)).run h :=
      congrArg (·.run h) (evaluate_sides hsplit (by simp [he]))
    have hblank : Expression.value s.table s.settings.autoBalance (' ' :: e.toList) =
        s.evaluateExpression e := Expression.value_blank_cons (by decide) _ _ _
    rcases hv : (s.evaluateExpression e).outcome h with ⟨error | x, j⟩
    · rw [← hblank] at hv
      exact hout.trans (run_assign ht hv)
    · rw [← hblank] at hv
      obtain ⟨s', h', hrun, hwritten⟩ := hstore x j
      rw [hout.trans ((run_assign ht hv).trans hrun)]
      exact ⟨rfl, hwritten⟩

/-- In every session that can be reached, the constants are the built-in ones. Every variable
and every accessor is usable under its name, is read by its name, and is written by an
assignment to its name. -/
theorem Reachable.symbols_usable (hs : s.Reachable) :
    (∀ k x, s.table.find? k = some (.constant x) ↔ (k, x) ∈ Table.constants) ∧
    (∀ k x, s.table.find? k = some (.variable x) →
      s.Usable k ∧ s.ReadsBack k x ∧
        s.Writes k fun y j s' h' => s'.settings = s.settings ∧
          s.table.Replaces k y s'.table ∧ h' = j.record [.assigned k y]) ∧
    ∀ k a, s.table.find? k = some (.accessor a) →
      s.Usable k ∧ s.ReadsThrough k a ∧
        s.Writes k fun y j s' h' => s' = s ∧
          h' = ⟨a.set y j.world, j.events ++ [.set a.label y, .assigned k y]⟩ := by
  refine ⟨hs.constant_iff, ?_, ?_⟩
  · intro k x hx
    have hid := hs.named.identifier (Option.isSome_of_eq_some hx)
    have hget : s.table.get k = some (.variable x) := by rw [Table.get, hid.key, hx]
    refine ⟨hs.usable hx (by simp),
      fun h => evaluate_name hid hid.normalize (Table.run_resolve_variable hget h),
      writes_of_store (hs.target hx (by simp)) (hid.not_mem (by decide +kernel)) fun y j => ?_⟩
    have hrun := run_store_variable hget y j
    rw [hid.key] at hrun
    exact ⟨_, _, hrun, rfl, Table.replaces_store hx y, rfl⟩
  · intro k a ha
    have hid := hs.named.identifier (Option.isSome_of_eq_some ha)
    have hget : s.table.get k = some (.accessor a) := by rw [Table.get, hid.key, ha]
    exact ⟨hs.usable ha (by simp),
      fun h => evaluate_name hid hid.normalize (Table.run_resolve_accessor hget h),
      writes_of_store (hs.target ha (by simp)) (hid.not_mem (by decide +kernel)) fun y j =>
        ⟨_, _, run_store_accessor hget y j, rfl, rfl⟩⟩

/-- A keyword in capitals, a variable, and an accessor under a name with an index. -/
theorem symbols_usable_indexed :
    let h : Host Unit := ⟨(), []⟩
    let a : Accessor Unit := ⟨"left", fun w => (2, w), fun _ w => w⟩
    let opened : Session Unit := create ⟨" LET ", true⟩
    let declared := ((opened.answer (.evaluate "let Größe = 3")).run h).1
    let s := ((declared.answer (.register "Element[0].Left" a)).run h).1
    s.Reachable ∧ s.table.find? "pi" = some (.constant 3.141592653589793) ∧
      (∃ x, s.Usable "größe" ∧ s.ReadsBack "größe" x ∧ s.Writes "größe" fun y j s' h' =>
        s'.settings = s.settings ∧ s.table.Replaces "größe" y s'.table ∧
          h' = j.record [.assigned "größe" y]) ∧
      ∃ b, s.Usable "element[0].left" ∧ s.ReadsThrough "element[0].left" b ∧
        s.Writes "element[0].left" fun y j s' h' => s' = s ∧
          h' = ⟨b.set y j.world, j.events ++ [.set b.label y, .assigned "element[0].left" y]⟩ := by
  intro h a opened declared s
  have hs : s.Reachable := .call _ h (.call _ h (.create ⟨" LET ", true⟩))
  have hvariable : "größe" ∈ s.table.variableNames := by decide +kernel
  have haccessor : "element[0].left" ∈ s.table.accessorNames := by decide +kernel
  obtain ⟨x, hx⟩ := Table.mem_variableNames.mp hvariable
  obtain ⟨b, hb⟩ := Table.mem_accessorNames.mp haccessor
  obtain ⟨hconstants, hvariables, haccessors⟩ := hs.symbols_usable
  exact ⟨hs, (hconstants _ _).mpr (.head _), ⟨x, hvariables _ x hx⟩, b, haccessors _ b hb⟩

end Session
end RuleSheet
