import RuleSheet.Proofs.Session.Spelling

/-!
# Names that read back

A statement that succeeded has left its value under the name on its left side, and a
registration has left its accessor there. A text that is a name has the value of that
name. So what is written under a spelling is read back by it, as long as the left side
and the expression make the same name of it. They do so unless a word of the spelling
ends in a capital sigma: then the statement writes to a name with a final sigma, and the
expression reads one with a small sigma.
-/
namespace RuleSheet
open Text
variable {W : Type}

theorem Expression.outcome_plainValue_name {t : Table W} {autoBalance : Bool} {cs : List Char}
    {n : String} {x : Float} {h k : Host W} (hscan : Token.scan autoBalance cs = [.name n])
    (hx : (t.resolve n).run h = (some x, k)) :
    (plainValue t autoBalance cs).outcome h = (.ok x, k) := by
  have htake : (Yard.take t Yard.empty (.name n)).outcome h =
      (.ok (Yard.empty.send (.value x)), k) := by
    rw [Yard.take, Attempt.outcome_lift_bind, hx]
    rfl
  refine outcome_plainValue.mpr ⟨[.value x], k, ?_, rfl, rfl⟩
  rw [hscan, Postfix.ofTokens, List.foldlM_cons]
  exact Attempt.outcome_bind_ok.mpr
    ⟨_, k, Attempt.outcome_bind_ok.mpr ⟨_, k, htake, rfl⟩, rfl⟩

namespace Session

/-- The text, as a statement, has the value `x`, and nothing is called or changed. -/
def ReadsBack (s : Session W) (text : String) (x : Float) : Prop :=
  ∀ h, (s.evaluate text).run h = ((.ok x, s), h)

/-- The text, as a statement, calls the getter once and has its value. -/
def ReadsThrough (s : Session W) (text : String) (a : Accessor W) : Prop :=
  ∀ h, (s.evaluate text).run h =
    ((.ok (a.get h.world).1, s),
      ⟨(a.get h.world).2, h.events ++ [.got a.label (a.get h.world).1]⟩)

/-- A statement that is a spelling of a name has the value that the name has. -/
theorem evaluate_name {s : Session W} {text n : String} {x : Float} {h k : Host W}
    (hn : Token.Identifier n) (htext : Token.normalize text.toList = n.toList)
    (hx : (s.table.resolve n).run h = (some x, k)) :
    (s.evaluate text).run h = ((.ok x, s), k) := by
  have hnot {c : Char} (hsettled : IsSettled c) (hblank : isBlank c = false)
      (hpart : Lexeme.isNamePart c = false) : c ∉ text.toList := by
    intro hmem
    have hin : c ∈ n.toList := by
      rw [← htext, Token.normalize]
      refine List.mem_flatMap.mpr ⟨c, List.mem_filter.mpr ⟨hmem, by simp [hblank]⟩, ?_⟩
      rw [show lowerChar c = [c] from hsettled]
      exact .head _
    exact hn.not_mem hpart hin
  have hequals : '=' ∉ text.toList :=
    hnot (by decide +kernel) (by decide +kernel) (by decide +kernel)
  have hquestion : '?' ∉ text.toList :=
    hnot (by decide +kernel) (by decide +kernel) (by decide +kernel)
  have hscan : Token.scan s.settings.autoBalance text.toList = [.name n] :=
    Token.scan_eq_name_iff.mpr (hn.scan htext)
  have hvalue := Expression.outcome_plainValue_name hscan hx
  unfold Attempt.outcome at hvalue
  rw [evaluate_none (splitEquals_eq_none_iff.mpr hequals), evaluateExpression,
    Expression.value_plain hquestion, StateT.run_bind, hvalue]
  rfl

theorem readsBack_of_find? {s : Session W} (hs : s.Reachable) {name : String} {x : Float}
    (hsigma : ¬EndsInSigma name) (hx : s.table.find? (folded name) = some (.variable x)) :
    s.ReadsBack name x := by
  have hn := hs.named.identifier (Option.isSome_of_eq_some hx)
  exact fun h => evaluate_name hn (normalize_eq_folded hn hsigma)
    (Table.run_resolve_variable (by rw [Table.get, key_folded, hx]) h)

theorem readsThrough_of_find? {s : Session W} (hs : s.Reachable) {name : String} {a : Accessor W}
    (hsigma : ¬EndsInSigma name) (ha : s.table.find? (folded name) = some (.accessor a)) :
    s.ReadsThrough name a := by
  have hn := hs.named.identifier (Option.isSome_of_eq_some ha)
  exact fun h => evaluate_name hn (normalize_eq_folded hn hsigma)
    (Table.run_resolve_accessor (by rw [Table.get, key_folded, ha]) h)

theorem target_of_ok {s : Session W} {statement : String} {left right : List Char} {x : Float}
    {h : Host W} (hsplit : statement.toList = left ++ '=' :: right)
    (hx : ((s.evaluate statement).run h).1.1 = .ok x) :
    splitEquals statement.toList = some (left, right) ∧ ∃ target, s.target left = .ok target := by
  cases hs : splitEquals statement.toList with
  | none =>
      rw [splitEquals_eq_none_iff, hsplit] at hs
      simp at hs
  | some sides =>
      obtain ⟨a, b⟩ := sides
      by_cases hb : '=' ∈ b
      · rw [evaluate_multiple hs hb] at hx
        cases hx
      have hparts : a = left ∧ b = right := by
        obtain ⟨hab, ha⟩ := splitEquals_eq_some_iff.mp hs
        rw [hsplit] at hab
        obtain ⟨hleft, -, hright⟩ := (List.append_cons_inj_of_notMem ha hb).mp hab.symm
        exact ⟨hleft, hright⟩
      obtain ⟨rfl, rfl⟩ := hparts
      refine ⟨rfl, ?_⟩
      cases ht : s.target a with
      | ok target => exact ⟨target, rfl⟩
      | error e =>
          rw [evaluate_sides hs hb, assign, ht] at hx
          cases hx

/-- A statement that succeeded has left its value under the key that it names, unless that
is the key of an accessor. -/
theorem find?_of_ok {s : Session W} {statement k : String} {x : Float} {h : Host W}
    (hx : ((s.evaluate statement).run h).1.1 = .ok x) (hn : s.named? statement = some k)
    (hk : ∀ a, s.table.find? k ≠ some (.accessor a)) :
    ((s.evaluate statement).run h).1.2.table.find? k = some (.variable x) := by
  rcases evaluate_cases s statement h with ⟨e, j, hout, _⟩ | ⟨y, s', h', f, hout, hf⟩
  · rw [hout] at hx
    cases hx
  · rw [hout] at hx ⊢
    obtain rfl := Except.ok.inj hx
    cases f with
    | nothing =>
        rw [named?, splitEquals_eq_none_iff.mpr hf.1] at hn
        cases hn
    | declared i =>
        obtain ⟨hi, _, _, hentries, _⟩ := hf
        obtain rfl := Option.some.inj (hi.symm.trans hn)
        exact Table.find?_eq_some_iff.mpr (by simp [hentries])
    | replaced i =>
        obtain ⟨hi, _, _, ht, _⟩ := hf
        obtain rfl := Option.some.inj (hi.symm.trans hn)
        exact ht.value
    | written i a =>
        obtain ⟨hi, ha, _⟩ := hf
        obtain rfl := Option.some.inj (hi.symm.trans hn)
        exact absurd ha (hk a)

/-- The name that a declaration names is the one that is spelled after the keyword. With a
blank keyword there are no declarations, and the statement is an assignment. -/
theorem named?_of_declaration {s : Session W} (hs : s.Reachable) {keyword name e : String}
    (hkeyword : folded keyword = s.settings.declarationKeyword) {x : Float} {h : Host W}
    (hx : ((s.evaluate (keyword ++ " " ++ name ++ " = " ++ e)).run h).1.1 = .ok x) :
    s.named? (keyword ++ " " ++ name ++ " = " ++ e) = some (folded name) ∧
      (s.settings.declarationKeyword ≠ "" → s.table.find? (folded name) = none) := by
  have hsplit : (keyword ++ " " ++ name ++ " = " ++ e).toList =
      (keyword.toList ++ ' ' :: (name.toList ++ [' '])) ++ '=' :: ' ' :: e.toList := by
    simp [String.toList_append]
  obtain ⟨hsides, target, ht⟩ := target_of_ok hsplit hx
  have hfold : fold keyword.toList = s.settings.declarationKeyword.toList := by
    rw [← hkeyword, toList_folded]
  have hspace : ∀ c ∈ [' '], isBlank c = true := List.forall_mem_singleton.mpr (by decide)
  have heq := target_keyword hs hfold ht
  rw [fold_append_blanks _ hspace] at heq
  have hwritable := writable_of_target ht
  rw [named?_of_target hsides ht]
  by_cases hempty : s.settings.declarationKeyword = ""
  · rw [if_pos hempty] at heq
    subst heq
    exact ⟨congrArg some (key_folded name), fun hne => absurd hempty hne⟩
  · rw [if_neg hempty] at heq
    subst heq
    have hfree : s.table.find? (Table.key (folded name)) = none := hwritable
    rw [key_folded] at hfree
    exact ⟨congrArg some (key_folded name), fun _ => hfree⟩

theorem named?_of_assignment {s : Session W} {name e : String}
    (hn : Token.Identifier (folded name)) {x : Float} {h : Host W}
    (hx : ((s.evaluate (name ++ " = " ++ e)).run h).1.1 = .ok x) :
    s.named? (name ++ " = " ++ e) = some (folded name) := by
  have hsplit : (name ++ " = " ++ e).toList =
      (name.toList ++ [' ']) ++ '=' :: ' ' :: e.toList := by
    simp [String.toList_append]
  obtain ⟨hsides, target, ht⟩ := target_of_ok hsplit hx
  have heq := eq_of_target ht
  have hspace : ∀ c ∈ [' '], isBlank c = true := List.forall_mem_singleton.mpr (by decide)
  rw [fold_append_blanks _ hspace, ← toList_folded, declaredName?_of_identifier hn] at heq
  rw [named?_of_target hsides ht, heq, Target.name, String.ofList_toList, key_folded]

theorem find?_of_register {s s' : Session W} {name : String} {a : Accessor W} {h h' : Host W}
    (hr : (s.register name a).run h = ((.ok (), s'), h')) :
    s'.table.find? (folded name) = some (.accessor a) := by
  rcases register_cases s name a h with ⟨e, hout⟩ | ⟨t, _, ht, hout⟩
  · rw [hr] at hout
    cases hout
  · rw [hr] at hout
    cases hout
    exact Table.find?_eq_some_iff.mpr (by simp [ht])

theorem readsBack_of_run {s s' : Session W} (hs : s.Reachable) {name statement : String}
    (hsigma : ¬EndsInSigma name) (hn : s.named? statement = some (folded name))
    (hk : ∀ a, s.table.find? (folded name) ≠ some (.accessor a)) {x : Float} {h h' : Host W}
    (hrun : (s.evaluate statement).run h = ((.ok x, s'), h')) : s'.ReadsBack name x := by
  have hfind := find?_of_ok (congrArg (·.1.1) hrun) hn hk
  have hreach := hs.call (.evaluate statement) h
  rw [run_answer_evaluate, hrun] at hreach
  rw [hrun] at hfind
  exact readsBack_of_find? hreach hsigma hfind

/-- What is declared, assigned or registered under a spelling is read back by the same
spelling, if no word of it ends in a capital sigma. The keyword may be spelled in any way
that folds to it. If it is empty, the declaration is an assignment, which may also write
through an accessor. Two such spellings that an expression does not tell apart never stand
for two symbols. On the names that can be declared the condition is exact: without it an
expression reads another name. -/
theorem reads_back {s : Session W} (hs : s.Reachable) (name : String) :
    folded s.settings.declarationKeyword = s.settings.declarationKeyword ∧
    (Token.isIdentifier (folded name) = true → ∀ autoBalance,
      (Token.scan autoBalance name.toList = [.name (folded name)] ↔ ¬EndsInSigma name)) ∧
    (¬EndsInSigma name →
      (∀ keyword e x h s' h', folded keyword = s.settings.declarationKeyword →
        (s.settings.declarationKeyword = "" → folded name ∉ s.table.accessorNames) →
        (s.evaluate (keyword ++ " " ++ name ++ " = " ++ e)).run h = ((.ok x, s'), h') →
        s'.ReadsBack name x) ∧
      (∀ e x h s' h', folded name ∈ s.table.variableNames →
        (s.evaluate (name ++ " = " ++ e)).run h = ((.ok x, s'), h') → s'.ReadsBack name x) ∧
      (∀ a h s' h', (s.register name a).run h = ((.ok (), s'), h') → s'.ReadsThrough name a) ∧
      ∀ other autoBalance, ¬EndsInSigma other → Token.isIdentifier (folded name) = true →
        Token.isIdentifier (folded other) = true →
        Token.scan autoBalance name.toList = Token.scan autoBalance other.toList →
        folded name = folded other) := by
  refine ⟨hs.folded_keyword, fun hid => scan_eq_folded_iff (Token.isIdentifier_iff.mp hid),
    fun hsigma => ?_⟩
  refine ⟨?_, ?_, ?_, ?_⟩
  · intro keyword e x h s' h' hkeyword haccessor hrun
    obtain ⟨hnamed, hfree⟩ := named?_of_declaration hs hkeyword (congrArg (·.1.1) hrun)
    refine readsBack_of_run hs hsigma hnamed (fun a ha => ?_) hrun
    by_cases hempty : s.settings.declarationKeyword = ""
    · exact haccessor hempty (Table.mem_accessorNames.mpr ⟨a, ha⟩)
    · rw [hfree hempty] at ha
      cases ha
  · intro e x h s' h' hvariable hrun
    obtain ⟨y, hy⟩ := Table.mem_variableNames.mp hvariable
    have hid := hs.named.identifier (Option.isSome_of_eq_some hy)
    have hnamed := named?_of_assignment hid (congrArg (·.1.1) hrun)
    exact readsBack_of_run hs hsigma hnamed (by simp [hy]) hrun
  · intro a h s' h' hrun
    have hreach := hs.call (.register name a) h
    rw [run_answer_register, hrun] at hreach
    exact readsThrough_of_find? hreach hsigma (find?_of_register hrun)
  · intro other autoBalance hother hid hid' hscan
    rw [(scan_eq_folded_iff (Token.isIdentifier_iff.mp hid) autoBalance).mpr hsigma,
      (scan_eq_folded_iff (Token.isIdentifier_iff.mp hid') autoBalance).mpr hother] at hscan
    simpa using hscan

/-- A sigma at the beginning of a word, and a keyword in capitals. The name is declared and
then assigned, or it is registered. -/
theorem reads_back_initial_sigma :
    let s : Session Unit := create {}
    let h : Host Unit := ⟨(), []⟩
    let a : Accessor Unit := ⟨"width", fun w => (2, w), fun _ w => w⟩
    let declared := (s.evaluate ("VAR" ++ " " ++ " ΣΑ" ++ " = " ++ "1")).run h
    let assigned := (declared.1.2.evaluate (" ΣΑ" ++ " = " ++ "3")).run declared.2
    let registered := (s.register " ΣΑ" a).run h
    s.Reachable ∧ ¬EndsInSigma " ΣΑ" ∧ folded "VAR" = s.settings.declarationKeyword ∧
      (∃ x, declared.1.1 = .ok x ∧ declared.1.2.ReadsBack " ΣΑ" x) ∧
      (∃ x, assigned.1.1 = .ok x ∧ assigned.1.2.ReadsBack " ΣΑ" x) ∧
      registered.1.1 = .ok () ∧ registered.1.2.ReadsThrough " ΣΑ" a := by
  intro s h a declared assigned registered
  have hs : s.Reachable := .create {}
  have hsigma : ¬EndsInSigma " ΣΑ" := lowerAfter_eq_lowerChars_iff.mp (by decide +kernel)
  have hkeyword : folded "VAR" = s.settings.declarationKeyword := by decide +kernel
  obtain ⟨x, hx⟩ := Attempt.fault?_eq_none_iff.mp
    (show Attempt.fault? declared.1.1 = none by decide +kernel)
  obtain ⟨y, hy⟩ := Attempt.fault?_eq_none_iff.mp
    (show Attempt.fault? assigned.1.1 = none by decide +kernel)
  obtain ⟨u, hu⟩ := Attempt.fault?_eq_none_iff.mp
    (show Attempt.fault? registered.1.1 = none by decide +kernel)
  have hdeclared : declared = ((.ok x, declared.1.2), declared.2) :=
    Prod.ext (Prod.ext hx rfl) rfl
  have hassigned : assigned = ((.ok y, assigned.1.2), assigned.2) :=
    Prod.ext (Prod.ext hy rfl) rfl
  have hregistered : registered = ((.ok (), registered.1.2), registered.2) :=
    Prod.ext (Prod.ext hu rfl) rfl
  have hnext : declared.1.2.Reachable := by
    have hcall := hs.call (.evaluate ("VAR" ++ " " ++ " ΣΑ" ++ " = " ++ "1")) h
    rwa [run_answer_evaluate] at hcall
  have hvariable : folded " ΣΑ" ∈ declared.1.2.table.variableNames := by decide +kernel
  refine ⟨hs, hsigma, hkeyword, ⟨x, hx, ?_⟩, ⟨y, hy, ?_⟩, hu, ?_⟩
  · exact ((reads_back hs " ΣΑ").2.2 hsigma).1 "VAR" "1" x h _ _ hkeyword
      (fun hempty => absurd hempty (by decide +kernel)) hdeclared
  · exact ((reads_back hnext " ΣΑ").2.2 hsigma).2.1 "3" y _ _ _ hvariable hassigned
  · exact ((reads_back hs " ΣΑ").2.2 hsigma).2.2.1 a h _ _ hregistered

/-- A sigma at the end of a word: the declared name is not found, since an expression reads
another, and that one can be declared as well. -/
theorem exists_not_read_back :
    ∃ (s : Session Unit) (name other : String) (h : Host Unit), s.Reachable ∧
      let first := (s.evaluate ("var " ++ name ++ " = 1")).run h
      let second := (first.1.2.evaluate ("var " ++ other ++ " = 2")).run first.2
      (∃ x, first.1.1 = .ok x) ∧
      ((first.1.2.evaluate name).run first.2).1.1 = .error (.unknownIdentifier "ασ") ∧
      Token.scan true name.toList = Token.scan true other.toList ∧ folded name ≠ folded other ∧
      folded name ∈ second.1.2.table.variableNames ∧
      folded other ∈ second.1.2.table.variableNames := by
  refine ⟨create {}, "ΑΣ", "ασ", ⟨(), []⟩, .create {}, ?_, ?_, ?_, ?_, ?_, ?_⟩
  · exact Attempt.fault?_eq_none_iff.mp (by decide +kernel)
  · exact Attempt.fault?_eq_some_iff.mp (by decide +kernel)
  · decide +kernel
  · decide +kernel
  · decide +kernel
  · decide +kernel

end Session
end RuleSheet
