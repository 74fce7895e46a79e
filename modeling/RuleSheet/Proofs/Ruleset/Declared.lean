import RuleSheet.Proofs.Ruleset.History

/-!
# The variables of a pass

A ruleset does not note declarations as they are made. It compares the variables after a
pass with those before it. That comes to the same thing: a statement removes no variable and
adds the one that it declares, if it succeeds, and that one was not there before. So the
list has exactly the names that declarations of the pass have declared, each of them once.

With resetting on, a variable is therefore there after a pass only if the pass declared it
or the host was the last to declare it.
-/
namespace RuleSheet
variable {W : Type}

namespace Session

/-- The statement is a declaration of the key `k`, and it succeeds. -/
def Declares (s : Session W) (h : Host W) (statement k : String) : Prop :=
  (∃ x, ((s.evaluate statement).run h).1.1 = .ok x) ∧
    ∃ left right name, splitEquals statement.toList = some (left, right) ∧
      s.target left = .ok (.declaration name) ∧ Table.key name = k

variable {s : Session W} {h : Host W} {statement k : String}

theorem Declares.find?_eq_none (hd : s.Declares h statement k) : s.table.find? k = none := by
  obtain ⟨_, _, _, name, _, ht, hkey⟩ := hd
  have hfree : s.table.find? (Table.key name) = none := writable_of_target ht
  rwa [hkey] at hfree

/-- What a pass declares was no variable when it began. -/
theorem Declares.not_mem (hd : s.Declares h statement k) : k ∉ s.table.variableNames := by
  intro hk
  obtain ⟨x, hx⟩ := Table.mem_variableNames.mp hk
  rw [hd.find?_eq_none] at hx
  cases hx

theorem Declares.named? (hd : s.Declares h statement k) : s.named? statement = some k := by
  obtain ⟨_, left, right, name, hs, ht, hkey⟩ := hd
  have hn := named?_of_target hs ht
  rw [Target.name, hkey] at hn
  exact hn

theorem Declares.eq_of_named? {i : String} (hd : s.Declares h statement k)
    (hi : s.named? statement = some i) : i = k :=
  Option.some.inj (hi.symm.trans hd.named?)

theorem mem_variableNames_evaluate (s : Session W) (h : Host W) (statement k : String) :
    k ∈ ((s.evaluate statement).run h).1.2.table.variableNames ↔
      k ∈ s.table.variableNames ∨ s.Declares h statement k := by
  rcases evaluate_cases s statement h with ⟨e, j, hout, _⟩ | ⟨x, s', h', f, hout, hf⟩
  · have hnot : ¬s.Declares h statement k := by
      rintro ⟨⟨x, hx⟩, _⟩
      rw [hout] at hx
      cases hx
    rw [hout, or_iff_left hnot]
  · cases f with
    | nothing =>
        obtain ⟨hequals, rfl, _⟩ := hf
        rw [hout, or_iff_left]
        intro hd
        have hn := hd.named?
        rw [Session.named?, splitEquals_eq_none_iff.mpr hequals] at hn
        cases hn
    | declared i =>
        obtain ⟨hn, hfree, _, hentries, _⟩ := hf
        have hd : s.Declares h statement k ↔ k = i := by
          constructor
          · exact fun hd => (hd.eq_of_named? hn).symm
          · rintro rfl
            exact ⟨⟨x, by rw [hout]⟩, declaration_of_named? hn hfree⟩
        rw [hout, variableNames_of_entries hentries, List.mem_append, List.mem_singleton, hd]
    | replaced i =>
        obtain ⟨hn, ⟨y, hy⟩, _, ht, _⟩ := hf
        rw [hout, ht.mem_variableNames hy, or_iff_left]
        intro hd
        rw [hd.eq_of_named? hn, hd.find?_eq_none] at hy
        cases hy
    | written i a =>
        obtain ⟨hn, ha, rfl, _⟩ := hf
        rw [hout, or_iff_left]
        intro hd
        rw [hd.eq_of_named? hn, hd.find?_eq_none] at ha
        cases ha

/-- The record of events tells the declarations apart. -/
theorem mem_declaredKeys_iff {s' : Session W} {h' : Host W} {new : List Event}
    {answer : Except StatementError Float}
    (hrun : (s.evaluate statement).run h = ((answer, s'), h'))
    (hnew : h'.events = h.events ++ new) :
    k ∈ declaredKeys new ↔ s.Declares h statement k := by
  obtain ⟨more, hadds⟩ := s.adds_evaluate statement h
  have hnames := s.mem_variableNames_evaluate h statement k
  rw [hrun] at hadds hnames
  obtain rfl : more = new := List.append_cancel_left (hadds.events.symm.trans hnew)
  have hmem := hadds.names k
  constructor
  · intro hk
    exact (hnames.mp (hmem.mpr (.inr hk))).resolve_left (hadds.fresh k hk)
  · intro hd
    exact (hmem.mp (hnames.mpr (.inr hd))).resolve_left hd.not_mem

end Session

namespace Ruleset

/-- One of the statements that are evaluated from a state on declares the key `k`: it finds
what the statements before it have left, and succeeds. -/
def Declares (s : Session W) (h : Host W) (index : Nat) (statements : List String)
    (k : String) : Prop :=
  ∃ done statement rest, statements = done ++ statement :: rest ∧
    isBlankStatement statement = false ∧
    ((runFrom s index done).run h).1.2.Declares ((runFrom s index done).run h).2 statement k

@[simp] theorem run_runFrom_nil (s : Session W) (h : Host W) (index : Nat) :
    (runFrom s index []).run h = ((⟨0, []⟩, s), h) :=
  rfl

theorem runFrom_cons (s : Session W) (h : Host W) (index : Nat) (statement : String)
    (rest : List String) :
    (runFrom s index (statement :: rest)).run h =
      let first := (runFrom s index [statement]).run h
      let after := (runFrom first.1.2 (index + 1) rest).run first.2
      ((⟨first.1.1.applied + after.1.1.applied, first.1.1.failures ++ after.1.1.failures⟩,
        after.1.2), after.2) := by
  by_cases hb : isBlankStatement statement = true
  · rw [runFrom_blank hb, runFrom_blank hb, run_runFrom_nil]
    simp only [Nat.zero_add, List.nil_append]
    rfl
  rw [Bool.not_eq_true] at hb
  rcases he : (s.evaluate statement).run h with ⟨⟨e | x, s'⟩, h'⟩
  · rw [runFrom_error hb he, runFrom_error hb he]
    simp
  · rw [runFrom_ok hb he, runFrom_ok hb he]
    simp [Nat.add_comm 1]

theorem mem_variableNames_runFrom_single (s : Session W) (h : Host W) (index : Nat)
    (statement k : String) :
    k ∈ ((runFrom s index [statement]).run h).1.2.table.variableNames ↔
      k ∈ s.table.variableNames ∨
        isBlankStatement statement = false ∧ s.Declares h statement k := by
  by_cases hb : isBlankStatement statement = true
  · rw [runFrom_blank hb, or_iff_left (by simp [hb])]
    rfl
  rw [Bool.not_eq_true] at hb
  have hnames := s.mem_variableNames_evaluate h statement k
  rw [and_iff_right hb, ← hnames]
  rcases he : (s.evaluate statement).run h with ⟨⟨e | x, s'⟩, h'⟩
  · rw [runFrom_error hb he]
    rfl
  · rw [runFrom_ok hb he]
    rfl

theorem declares_cons (s : Session W) (h : Host W) (index : Nat) (statement : String)
    (rest : List String) (k : String) :
    Declares s h index (statement :: rest) k ↔
      (isBlankStatement statement = false ∧ s.Declares h statement k) ∨
        Declares ((runFrom s index [statement]).run h).1.2
          ((runFrom s index [statement]).run h).2 (index + 1) rest k := by
  constructor
  · rintro ⟨done, st, others, hsplit, hb, hd⟩
    cases done with
    | nil =>
        obtain ⟨rfl, rfl⟩ := List.cons.inj hsplit
        exact .inl ⟨hb, hd⟩
    | cons first done =>
        obtain ⟨rfl, hrest⟩ := List.cons.inj hsplit
        rw [runFrom_cons] at hd
        exact .inr ⟨done, st, others, hrest, hb, hd⟩
  · rintro (⟨hb, hd⟩ | ⟨done, st, others, rfl, hb, hd⟩)
    · exact ⟨[], statement, rest, rfl, hb, hd⟩
    · refine ⟨statement :: done, st, others, rfl, hb, ?_⟩
      rw [runFrom_cons]
      exact hd

theorem mem_variableNames_runFrom (s : Session W) (h : Host W) (index : Nat)
    (statements : List String) (k : String) :
    k ∈ ((runFrom s index statements).run h).1.2.table.variableNames ↔
      k ∈ s.table.variableNames ∨ Declares s h index statements k := by
  induction statements generalizing s h index with
  | nil =>
      refine (or_iff_left ?_).symm
      rintro ⟨done, st, others, hsplit, _⟩
      simp at hsplit
  | cons statement rest ih =>
      rw [runFrom_cons, declares_cons, ← or_assoc, ← mem_variableNames_runFrom_single]
      exact ih _ _ _

/-- What a pass declares was no variable when it began. -/
theorem Declares.not_mem {s : Session W} {h : Host W} {index : Nat} {statements : List String}
    {k : String} (hd : Declares s h index statements k) : k ∉ s.table.variableNames := by
  induction statements generalizing s h index with
  | nil =>
      obtain ⟨done, st, others, hsplit, _⟩ := hd
      simp at hsplit
  | cons statement rest ih =>
      rcases (declares_cons s h index statement rest k).mp hd with ⟨_, hfirst⟩ | hlater
      · exact hfirst.not_mem
      · intro hk
        exact ih hlater ((mem_variableNames_runFrom_single s h index statement k).mpr (.inl hk))

/-- The list that a pass leaves: what its statements have declared, without repetitions. -/
theorem declared_apply (r : Ruleset W) (h : Host W) :
    (r.apply.run h).1.2.declared.Nodup ∧
    ∀ k, k ∈ (r.apply.run h).1.2.declared ↔ Declares r.cleared h 0 r.constraints k := by
  rw [run_apply]
  dsimp only
  refine ⟨(Table.nodup_variableNames _).filter _, ?_⟩
  intro k
  rw [List.mem_filter, mem_variableNames_runFrom]
  simp only [Bool.not_eq_true', List.contains_eq_mem, decide_eq_false_iff_not]
  constructor
  · intro hk
    rcases hk with ⟨hk | hk, hnot⟩
    · exact absurd hk hnot
    · exact hk
  · exact fun hd => ⟨.inr hd, hd.not_mem⟩

end Ruleset

namespace History

/-- The host has declared a key last once a statement of its own declares it, and no other
statement of the host changes who has. -/
theorem declarer_evaluate (t : History W) (h : Host W) (statement k : String) :
    let after := t.advance h (.call (.evaluate statement))
    (t.ruleset.session.Declares h statement k → after.declarer k = some .host) ∧
    (¬t.ruleset.session.Declares h statement k → after.declarer k = t.declarer k) := by
  obtain ⟨new, hadds⟩ := t.ruleset.session.adds_evaluate statement h
  have hdeclares := Session.mem_declaredKeys_iff (k := k) rfl hadds.events
  have hdeclarer : (t.advance h (.call (.evaluate statement))).declarer k =
      t.noted .host (declaredKeys new) k := by
    rw [← Host.since_eq hadds.events]
    rfl
  rw [← hdeclares]
  dsimp only
  rw [hdeclarer, noted]
  exact ⟨fun hk => if_pos hk, fun hk => if_neg hk⟩

/-- Where passes reset, a pass leaves no variables but its own and those of the host. Its own
are the ones in its list, which has each of them once. A variable that a pass was the last to
declare is therefore still there after the next pass only if that one declares it again. -/
theorem apply_declared {t : History W} (ht : t.Lived)
    (hreset : t.ruleset.settings.resetVariables = true) (h : Host W) :
    let after := t.advance h .apply
    after.ruleset.declared.Nodup ∧
    (∀ k, k ∈ after.ruleset.declared ↔
      Ruleset.Declares t.ruleset.cleared h 0 t.ruleset.constraints k) ∧
    (∀ k ∈ after.ruleset.session.table.variableNames,
      k ∈ after.ruleset.declared ∨ after.declarer k = some .host) ∧
    ∀ k ∈ after.ruleset.session.table.variableNames,
      t.declarer k = some .pass → k ∈ after.ruleset.declared := by
  intro after
  have hlived : after.Lived := .move .apply h ht
  have hsettings : after.ruleset.settings.resetVariables = true := by
    change (t.ruleset.apply.run h).1.2.settings.resetVariables = true
    rwa [Ruleset.run_apply]
  obtain ⟨hnodup, hdeclared⟩ := Ruleset.declared_apply t.ruleset h
  have howned : ∀ k ∈ after.ruleset.session.table.variableNames,
      k ∈ after.ruleset.declared ∨ after.declarer k = some .host := by
    intro k hk
    rw [hlived.sound.declared]
    exact (hlived.host_or_latest hsettings hk).symm
  refine ⟨hnodup, hdeclared, howned, ?_⟩
  intro k hk hpass
  refine (howned k hk).resolve_right fun hhost => ?_
  have hdeclarer : after.declarer k = if k ∈ after.latest then some .pass else t.declarer k := rfl
  rw [hdeclarer, hpass, ite_self] at hhost
  cases hhost

/-- Two passes with a variable of the host between. The first pass declares `a`, fails to
declare it again, and declares `b`. The second declares `b` alone. -/
theorem apply_declared_twice :
    ∃ (t : History Unit) (h : Host Unit), t.Lived ∧
      t.ruleset.settings.resetVariables = true ∧ t.ruleset.declared = ["a", "b"] ∧
      t.declarer "a" = some .pass ∧ (t.advance h .apply).ruleset.declared = ["b"] ∧
      Ruleset.Declares t.ruleset.cleared h 0 t.ruleset.constraints "b" ∧
      "a" ∉ (t.advance h .apply).ruleset.session.table.variableNames ∧
      "c" ∈ (t.advance h .apply).ruleset.session.table.variableNames ∧
      (t.advance h .apply).declarer "c" = some .host := by
  let h : Host Unit := ⟨(), []⟩
  let t₁ := (begin (.create {} {})).advance h
    (.setConstraints ["var a = 1", "var a = 2", " ", "var b = a"])
  let t₂ := (t₁.advance h .apply).advance h (.call (.evaluate "var c = b"))
  let t₃ := t₂.advance h (.setConstraints ["var b = 3", "c = 4"])
  have hl : t₃.Lived := .move _ h (.move _ h (.move _ h (.move _ h (.create {} {}))))
  have hreset : t₃.ruleset.settings.resetVariables = true := by decide +kernel
  have hfirst : t₃.ruleset.declared = ["a", "b"] := by decide +kernel
  have hpass : t₃.declarer "a" = some .pass := by decide +kernel
  have hlist : (t₃.advance h .apply).ruleset.declared = ["b"] := by decide +kernel
  have hc : "c" ∈ (t₃.advance h .apply).ruleset.session.table.variableNames := by
    decide +kernel
  clear_value t₃
  obtain ⟨_, hdeclared, howned, hagain⟩ := apply_declared hl hreset h
  rw [hlist] at hdeclared howned hagain
  refine ⟨t₃, h, hl, hreset, hfirst, hpass, hlist, ?_, ?_, hc, ?_⟩
  · exact (hdeclared "b").mp (by simp)
  · intro ha
    have hmem := hagain "a" ha hpass
    simp at hmem
  · exact (howned "c" hc).resolve_left (by simp)

end History
end RuleSheet
