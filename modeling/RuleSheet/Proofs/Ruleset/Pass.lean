import RuleSheet.Proofs.Session.Reachable
import RuleSheet.Ruleset

/-!
# What a pass does to the variables

A statement declares at most one variable and removes none. Its declarations can be
read off the record of events, so a statement, and then a whole pass, adds exactly the
variables that it records as declared, and each of them was free before. The reset that
comes first removes exactly the variables named in the list of the pass before.
-/
namespace RuleSheet
variable {W : Type}

/-- The key of the variable that an event declares. -/
def Event.declaredKey? : Event → Option String
  | .declared name _ => some (Table.key name)
  | _ => none

/-- The keys declared in some events, in order. -/
def declaredKeys (events : List Event) : List String :=
  events.filterMap Event.declaredKey?

@[simp] theorem declaredKeys_append (a b : List Event) :
    declaredKeys (a ++ b) = declaredKeys a ++ declaredKeys b :=
  List.filterMap_append

theorem declaredKeys_of_isReading {events : List Event} (h : ∀ e ∈ events, e.isReading = true) :
    declaredKeys events = [] := by
  refine List.filterMap_eq_nil_iff.mpr fun e he => ?_
  have hr := h e he
  cases e with
  | declared name x => cases hr
  | _ => rfl

namespace Session

/-- Between two states of session and host, exactly the variables were added that were
recorded as declared. They were no variables before. -/
structure Adds (s : Session W) (h : Host W) (s' : Session W) (h' : Host W)
    (new : List Event) : Prop where
  events : h'.events = h.events ++ new
  fresh : ∀ k ∈ declaredKeys new, k ∉ s.table.variableNames
  names : ∀ k, k ∈ s'.table.variableNames ↔
    k ∈ s.table.variableNames ∨ k ∈ declaredKeys new

theorem Adds.of_same {s s' : Session W} {h h' : Host W} {new : List Event}
    (hevents : h'.events = h.events ++ new) (hnew : declaredKeys new = [])
    (hnames : ∀ k, k ∈ s'.table.variableNames ↔ k ∈ s.table.variableNames) :
    s.Adds h s' h' new where
  events := hevents
  fresh := by simp [hnew]
  names k := by simp [hnew, hnames k]

theorem Adds.trans {s s' s'' : Session W} {h h' h'' : Host W} {new more : List Event}
    (a : s.Adds h s' h' new) (b : s'.Adds h' s'' h'' more) :
    s.Adds h s'' h'' (new ++ more) where
  events := by rw [b.events, a.events, List.append_assoc]
  fresh := by
    intro k hk hs
    rw [declaredKeys_append, List.mem_append] at hk
    rcases hk with hk | hk
    · exact a.fresh k hk hs
    · exact b.fresh k hk ((a.names k).mpr (.inl hs))
  names k := by simp [b.names, a.names, or_assoc]

theorem variableNames_of_entries {t u : Table W} {k : String} {x : Float}
    (h : u.entries = t.entries ++ [(k, .variable x)]) :
    u.variableNames = t.variableNames ++ [k] := by
  unfold Table.variableNames
  rw [h, List.filter_append, List.map_append]
  rfl

theorem adds_evaluate (s : Session W) (statement : String) (h : Host W) :
    ∃ new, s.Adds h ((s.evaluate statement).run h).1.2 ((s.evaluate statement).run h).2 new := by
  rcases evaluate_cases s statement h with ⟨e, j, hout, hj⟩ | ⟨x, s', h', f, hout, hf⟩
  · rw [hout]
    obtain ⟨new, hnew, hread⟩ := hj.events
    exact ⟨new, .of_same hnew (declaredKeys_of_isReading hread) fun k => Iff.rfl⟩
  · rw [hout]
    cases f with
    | nothing =>
        obtain ⟨_, rfl, hj⟩ := hf
        obtain ⟨new, hnew, hread⟩ := hj.events
        exact ⟨new, .of_same hnew (declaredKeys_of_isReading hread) fun k => Iff.rfl⟩
    | declared k =>
        obtain ⟨_, hfree, _, hentries, name, j, hname, hj, rfl⟩ := hf
        obtain ⟨new, hnew, hread⟩ := hj.events
        have hkeys : declaredKeys (new ++ [.declared name x]) = [k] := by
          rw [declaredKeys_append, declaredKeys_of_isReading hread, ← hname]
          rfl
        refine ⟨new ++ [.declared name x], ?_, ?_, ?_⟩
        · rw [Host.record, hnew, List.append_assoc]
        · intro i hi hv
          rw [hkeys, List.mem_singleton] at hi
          obtain ⟨y, hy⟩ := Table.mem_variableNames.mp hv
          rw [hi, hfree] at hy
          cases hy
        · intro i
          rw [hkeys, variableNames_of_entries hentries, List.mem_append]
    | replaced k =>
        obtain ⟨_, ⟨y, hy⟩, _, ht, name, j, hj, rfl⟩ := hf
        obtain ⟨new, hnew, hread⟩ := hj.events
        refine ⟨new ++ [.assigned name x], .of_same ?_ ?_ (ht.mem_variableNames hy)⟩
        · rw [Host.record, hnew, List.append_assoc]
        · rw [declaredKeys_append, declaredKeys_of_isReading hread]
          rfl
    | written k a =>
        obtain ⟨_, _, rfl, name, j, hj, rfl⟩ := hf
        obtain ⟨new, hnew, hread⟩ := hj.events
        refine ⟨new ++ [.set a.label x, .assigned name x], .of_same ?_ ?_ fun k => Iff.rfl⟩
        · rw [hnew, List.append_assoc]
        · rw [declaredKeys_append, declaredKeys_of_isReading hread]
          rfl

theorem names_answer (s : Session W) (c : Call W) (h : Host W) :
    ∃ new, ((s.answer c).run h).2.events = h.events ++ new ∧
      ∀ k ∈ ((s.answer c).run h).1.table.variableNames,
        k ∈ s.table.variableNames ∨ k ∈ declaredKeys new := by
  cases c with
  | evaluate statement =>
      rw [run_answer_evaluate]
      obtain ⟨new, hadds⟩ := s.adds_evaluate statement h
      exact ⟨new, hadds.events, fun k hk => (hadds.names k).mp hk⟩
  | register name a =>
      rw [run_answer_register]
      rcases register_cases s name a h with ⟨e, hout⟩ | ⟨t, _, ht, hout⟩
      · rw [hout]
        exact ⟨[], (List.append_nil _).symm, fun k hk => .inl hk⟩
      · rw [hout]
        refine ⟨[.registered (folded name)], rfl, fun k hk => .inl ?_⟩
        obtain ⟨x, hx⟩ := Table.mem_variableNames.mp hk
        have hmem := Table.find?_eq_some_iff.mp hx
        rw [ht, List.mem_append, List.mem_singleton] at hmem
        rcases hmem with hold | hnew
        · exact Table.mem_variableNames.mpr ⟨x, Table.find?_eq_some_iff.mpr hold⟩
        · cases (Prod.mk.inj hnew).2
  | unregister name =>
      exact ⟨[], (List.append_nil _).symm, fun k hk => .inl (Table.mem_variableNames_remove hk)⟩
  | removeVariable name =>
      exact ⟨[], (List.append_nil _).symm, fun k hk => .inl (Table.mem_variableNames_remove hk)⟩
  | clearVariables =>
      exact ⟨[], (List.append_nil _).symm, fun k hk => .inl (Table.mem_variableNames_keep hk)⟩
  | clearAccessors =>
      exact ⟨[], (List.append_nil _).symm, fun k hk => .inl (Table.mem_variableNames_keep hk)⟩

end Session

namespace Ruleset

/-! One equation for each way in which a pass goes on to its next statement. -/

theorem runFrom_blank {statement : String} (hb : isBlankStatement statement = true)
    (s : Session W) (index : Nat) (rest : List String) :
    runFrom s index (statement :: rest) = runFrom s (index + 1) rest := by
  rw [runFrom, if_pos hb]

theorem runFrom_ok {statement : String} (hb : isBlankStatement statement = false)
    {s s' : Session W} {h h' : Host W} {x : Float}
    (he : (s.evaluate statement).run h = ((.ok x, s'), h')) (index : Nat) (rest : List String) :
    (runFrom s index (statement :: rest)).run h =
      let after := (runFrom s' (index + 1) rest).run h'
      ((⟨after.1.1.applied + 1, after.1.1.failures⟩, after.1.2), after.2) := by
  rw [runFrom, if_neg (by simp [hb]), StateT.run_bind, he]
  rfl

theorem runFrom_error {statement : String} (hb : isBlankStatement statement = false)
    {s s' : Session W} {h h' : Host W} {e : StatementError}
    (he : (s.evaluate statement).run h = ((.error e, s'), h')) (index : Nat)
    (rest : List String) :
    (runFrom s index (statement :: rest)).run h =
      let after := (runFrom s' (index + 1) rest).run (h'.record [.failed index statement e])
      ((⟨after.1.1.applied, ⟨index, statement, e⟩ :: after.1.1.failures⟩, after.1.2),
        after.2) := by
  rw [runFrom, if_neg (by simp [hb]), StateT.run_bind, he]
  rfl

/-- Induction along a pass: nothing is left of its list, or the statement that comes next is
blank, fails or succeeds, and the pass goes on from where that has led. -/
theorem pass_induction {P : Session W → Host W → Nat → List String → Prop}
    (nil : ∀ s h index, P s h index [])
    (blank : ∀ s h index statement rest, isBlankStatement statement = true →
      P s h (index + 1) rest → P s h index (statement :: rest))
    (error : ∀ s h index statement rest e s' h', isBlankStatement statement = false →
      (s.evaluate statement).run h = ((.error e, s'), h') →
      P s' (h'.record [.failed index statement e]) (index + 1) rest →
      P s h index (statement :: rest))
    (ok : ∀ s h index statement rest x s' h', isBlankStatement statement = false →
      (s.evaluate statement).run h = ((.ok x, s'), h') → P s' h' (index + 1) rest →
      P s h index (statement :: rest))
    (s : Session W) (h : Host W) (index : Nat) (statements : List String) :
    P s h index statements := by
  induction statements generalizing s h index with
  | nil => exact nil s h index
  | cons statement rest ih =>
      cases hb : isBlankStatement statement with
      | true => exact blank s h index statement rest hb (ih s h (index + 1))
      | false =>
          rcases he : (s.evaluate statement).run h with ⟨⟨e | x, s'⟩, h'⟩
          · exact error s h index statement rest e s' h' hb he (ih s' _ (index + 1))
          · exact ok s h index statement rest x s' h' hb he (ih s' h' (index + 1))

/-- The statements of a pass are calls like those of a host. -/
theorem runFrom_induction {P : Session W → Host W → Prop}
    (hcall : ∀ s h statement, P s h →
      P ((s.evaluate statement).run h).1.2 ((s.evaluate statement).run h).2)
    (hfailed : ∀ s h index statement e, P s h → P s (h.record [.failed index statement e]))
    {s : Session W} {h : Host W} (hs : P s h) (index : Nat) (statements : List String) :
    P ((runFrom s index statements).run h).1.2 ((runFrom s index statements).run h).2 := by
  induction s, h, index, statements using pass_induction with
  | nil s h index => exact hs
  | blank s h index statement rest hb ih =>
      rw [runFrom_blank hb]
      exact ih hs
  | error s h index statement rest e s' h' hb he ih =>
      have hnext := hcall s h statement hs
      rw [he] at hnext
      rw [runFrom_error hb he]
      exact ih (hfailed s' h' index statement e hnext)
  | ok s h index statement rest x s' h' hb he ih =>
      have hnext := hcall s h statement hs
      rw [he] at hnext
      rw [runFrom_ok hb he]
      exact ih hnext

theorem adds_runFrom (s : Session W) (h : Host W) (index : Nat) (statements : List String) :
    ∃ new, s.Adds h ((runFrom s index statements).run h).1.2
      ((runFrom s index statements).run h).2 new := by
  refine runFrom_induction (P := fun s' h' => ∃ new, s.Adds h s' h' new) ?_ ?_ ?_ index statements
  · intro s' h' statement hevents
    rcases hevents with ⟨new, hnew⟩
    obtain ⟨more, hmore⟩ := s'.adds_evaluate statement h'
    exact ⟨new ++ more, hnew.trans hmore⟩
  · intro s' h' i statement e hevents
    rcases hevents with ⟨new, hnew⟩
    have hfailed : s'.Adds h' s' (h'.record [.failed i statement e]) [.failed i statement e] :=
      .of_same rfl rfl fun k => Iff.rfl
    exact ⟨_, hnew.trans hfailed⟩
  · exact ⟨[], .of_same (by simp) rfl fun k => Iff.rfl⟩

theorem reachable_runFrom {s : Session W} (hs : s.Reachable) (h : Host W) (index : Nat)
    (statements : List String) : ((runFrom s index statements).run h).1.2.Reachable :=
  runFrom_induction (P := fun s' _ => s'.Reachable)
    (fun _ h' statement hr => hr.call (.evaluate statement) h') (fun _ _ _ _ _ hr => hr)
    hs index statements

theorem entries_removeVariable {s : Session W} {name : String} (hkey : Table.key name = name) :
    (s.removeVariable name).2.table.entries =
      s.table.entries.filter fun e => !(e.2.isVariable && e.1 == name) := by
  have hfind : ∀ e ∈ s.table.entries, e.1 = name → s.table.find? name = some e.2 := by
    rintro ⟨k, symbol⟩ he rfl
    exact Table.find?_eq_some_iff.mpr he
  change (s.table.remove Symbol.isVariable name).2.entries = _
  unfold Table.remove
  rw [Table.get, hkey]
  split
  · rename_i hany
    refine List.filter_congr fun e he => ?_
    by_cases hk : e.1 = name
    · rw [hfind e he hk] at hany
      simpa [hk] using hany
    · simp [bne, beq_eq_false_iff_ne.mpr hk]
  · rename_i hany
    symm
    rw [List.filter_eq_self]
    intro e he
    by_cases hk : e.1 = name
    · rw [hfind e he hk] at hany
      simpa [hk] using hany
    · simp [hk]

/-- The reset removes the variables that the pass before is said to have declared. -/
theorem entries_cleared {r : Ruleset W} (hreset : r.settings.resetVariables = true)
    (hkey : ∀ name ∈ r.declared, Table.key name = name) :
    r.cleared.table.entries =
      r.session.table.entries.filter fun e => !(e.2.isVariable && r.declared.contains e.1) := by
  have hfold : ∀ (names : List String) (s : Session W),
      (∀ name ∈ names, Table.key name = name) →
      (names.foldl (fun s name => (s.removeVariable name).2) s).table.entries =
        s.table.entries.filter fun e => !(e.2.isVariable && names.contains e.1) := by
    intro names
    induction names with
    | nil =>
        intro s _
        simp only [List.foldl_nil, List.contains_nil, Bool.and_false, Bool.not_false]
        exact (List.filter_eq_self.mpr fun _ _ => rfl).symm
    | cons name rest ih =>
        intro s hnames
        rw [List.foldl_cons, ih _ fun n hn => hnames n (.tail _ hn),
          entries_removeVariable (hnames name (.head _)), List.filter_filter]
        refine List.filter_congr fun e _ => ?_
        rw [List.contains_cons]
        cases e.2.isVariable <;> cases e.1 == name <;> simp
  rw [cleared, if_pos hreset, hfold r.declared r.session hkey]

theorem mem_variableNames_cleared {r : Ruleset W}
    (hkey : ∀ name ∈ r.declared, Table.key name = name) (k : String) :
    k ∈ r.cleared.table.variableNames ↔ k ∈ r.session.table.variableNames ∧
      (r.settings.resetVariables = false ∨ k ∉ r.declared) := by
  by_cases hreset : r.settings.resetVariables = true
  · unfold Table.variableNames
    rw [entries_cleared hreset hkey, List.mem_map, List.mem_map]
    constructor
    · rintro ⟨e, he, rfl⟩
      simp only [List.mem_filter, List.contains_eq_mem, Bool.not_eq_true',
        Bool.and_eq_false_iff, decide_eq_false_iff_not] at he
      obtain ⟨⟨hmem, hnot⟩, hvariable⟩ := he
      rw [hvariable] at hnot
      exact ⟨⟨e, List.mem_filter.mpr ⟨hmem, hvariable⟩, rfl⟩, .inr (hnot.resolve_left (by simp))⟩
    · rintro ⟨⟨e, he, rfl⟩, hnot⟩
      obtain ⟨hmem, hvariable⟩ := List.mem_filter.mp he
      have hnew : e.1 ∉ r.declared := hnot.resolve_left (by simp [hreset])
      exact ⟨e, List.mem_filter.mpr ⟨List.mem_filter.mpr ⟨hmem, by simp [hnew]⟩, hvariable⟩, rfl⟩
  · rw [Bool.not_eq_true] at hreset
    rw [cleared, hreset]
    simp

theorem reachable_cleared {r : Ruleset W} (hr : r.session.Reachable) (h : Host W) :
    r.cleared.Reachable := by
  have hfold : ∀ (names : List String) (s : Session W), s.Reachable →
      (names.foldl (fun s name => (s.removeVariable name).2) s).Reachable := by
    intro names
    induction names with
    | nil => exact fun s hs => hs
    | cons name rest ih =>
        exact fun s hs => ih _ (hs.call (.removeVariable name) h)
  unfold cleared
  split
  · exact hfold r.declared r.session hr
  · exact hr

theorem run_apply (r : Ruleset W) (h : Host W) :
    r.apply.run h =
      let after := (runFrom r.cleared 0 r.constraints).run h
      let declared := after.1.2.table.variableNames.filter fun name =>
        !r.cleared.table.variableNames.contains name
      ((after.1.1, { r with session := after.1.2, declared := declared }),
        after.2.record [.passed after.1.1.applied declared.length
          after.1.1.failures.length]) :=
  rfl

end Ruleset
end RuleSheet
