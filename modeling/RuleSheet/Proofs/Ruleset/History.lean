import RuleSheet.Proofs.Ruleset.Pass

/-!
# Whose variables a pass removes

A ruleset remembers the names of the variables that its last pass declared, and not
who declared them. A history adds what an observer of all moves knows: who made the
last declaration of each name, and which names the last pass declared, both read off
the events. The list that the ruleset keeps agrees with the second.

The reset therefore spares a variable of the host unless the last pass declared the same
name before the host did. Such a variable is taken for one of the pass.
-/
namespace RuleSheet
variable {W : Type}

/-- Who made a declaration. -/
inductive Party where
  | host
  | pass
  deriving DecidableEq

/-- What a host can do with a ruleset. -/
inductive Move (W : Type) where
  | call (c : Call W)
  | setConstraints (statements : List String)
  | pushConstraint (statement : String)
  | apply

/-- A ruleset, who made the last declaration of each key, and the keys that the last
pass declared. -/
structure History (W : Type) where
  ruleset : Ruleset W
  declarer : String → Option Party
  latest : List String

/-- What has been recorded since the state `h`. -/
def Host.since (h h' : Host W) : List Event :=
  h'.events.drop h.events.length

theorem Host.since_eq {h h' : Host W} {new : List Event} (he : h'.events = h.events ++ new) :
    h.since h' = new := by
  rw [since, he, List.drop_left]

namespace History

/-- A ruleset that has just been built. -/
def begin (r : Ruleset W) : History W :=
  ⟨r, fun _ => none, []⟩

/-- The declarers once `party` has declared some keys. -/
def noted (t : History W) (party : Party) (keys : List String) (k : String) : Option Party :=
  if k ∈ keys then some party else t.declarer k

/-- The history after a move that begins in the state `h` of the host. -/
def advance (t : History W) (h : Host W) : Move W → History W
  | .call c =>
      let (session, h') := (t.ruleset.session.answer c).run h
      { t with
        ruleset := { t.ruleset with session := session }
        declarer := t.noted .host (declaredKeys (h.since h')) }
  | .setConstraints statements =>
      { t with ruleset := { t.ruleset with constraints := statements } }
  | .pushConstraint statement =>
      { t with
        ruleset := { t.ruleset with constraints := t.ruleset.constraints ++ [statement] } }
  | .apply =>
      let ((_, ruleset), h') := t.ruleset.apply.run h
      ⟨ruleset, t.noted .pass (declaredKeys (h.since h')), declaredKeys (h.since h')⟩

/-- A ruleset under some settings or of some sheet, after any moves. -/
inductive Lived : History W → Prop
  | create (engine : EngineSettings) (passes : PassSettings) :
      Lived (begin (.create engine passes))
  | ofSheet (sheet : Sheet) : Lived (begin (.ofSheet sheet))
  | move {t : History W} (m : Move W) (h : Host W) : Lived t → Lived (t.advance h m)

/-- The list that the ruleset keeps is that of the last pass. -/
structure Sound (t : History W) : Prop where
  reachable : t.ruleset.session.Reachable
  declared : ∀ k, k ∈ t.ruleset.declared ↔ k ∈ t.latest
  keys : ∀ k ∈ t.ruleset.declared, Table.key k = k

theorem Sound.apply {t : History W} (ht : t.Sound) (h : Host W) :
    (t.advance h .apply).Sound ∧
    (∀ k, k ∈ (t.advance h .apply).ruleset.session.table.variableNames ↔
      k ∈ t.ruleset.cleared.table.variableNames ∨ k ∈ (t.advance h .apply).latest) ∧
    ∀ k ∈ (t.advance h .apply).latest, k ∉ t.ruleset.cleared.table.variableNames := by
  obtain ⟨new, hadds⟩ := Ruleset.adds_runFrom t.ruleset.cleared h 0 t.ruleset.constraints
  have hreach := Ruleset.reachable_runFrom (Ruleset.reachable_cleared ht.reachable h) h 0
    t.ruleset.constraints
  have hrun := Ruleset.run_apply t.ruleset h
  generalize (Ruleset.runFrom t.ruleset.cleared 0 t.ruleset.constraints).run h = after
    at hadds hreach hrun
  dsimp only at hrun
  have hlatest : (t.advance h .apply).latest = declaredKeys new := by
    change declaredKeys (h.since (t.ruleset.apply.run h).2) = declaredKeys new
    rw [hrun]
    dsimp only [Host.record]
    rw [Host.since_eq (by rw [hadds.events, List.append_assoc]), declaredKeys_append]
    exact List.append_nil _
  have hruleset : (t.advance h .apply).ruleset = (t.ruleset.apply.run h).1.2 := rfl
  rw [hrun] at hruleset
  have hdeclared : ∀ k, k ∈ (t.advance h .apply).ruleset.declared ↔ k ∈ declaredKeys new := by
    intro k
    rw [hruleset, List.mem_filter, hadds.names]
    simp only [Bool.not_eq_true', List.contains_eq_mem, decide_eq_false_iff_not]
    constructor
    · intro hboth
      rcases hboth with ⟨hk | hk, hnot⟩
      · exact absurd hk hnot
      · exact hk
    · exact fun hk => ⟨.inr hk, hadds.fresh k hk⟩
  refine ⟨⟨?_, ?_, ?_⟩, ?_, ?_⟩
  · rw [hruleset]
    exact hreach
  · intro k
    rw [hdeclared, hlatest]
  · intro k hk
    rw [hdeclared] at hk
    obtain ⟨x, hx⟩ := Table.mem_variableNames.mp ((hadds.names k).mpr (.inr hk))
    exact (hreach.named.identifier (Option.isSome_iff_exists.mpr ⟨_, hx⟩)).key
  · intro k
    rw [hruleset, hlatest]
    exact hadds.names k
  · rw [hlatest]
    exact hadds.fresh

theorem Lived.sound {t : History W} (ht : t.Lived) : t.Sound := by
  induction ht with
  | create engine passes => exact ⟨.create engine, by simp [begin, Ruleset.create], by
      simp [begin, Ruleset.create]⟩
  | ofSheet sheet => exact ⟨.create sheet.engine, by simp [begin, Ruleset.ofSheet], by
      simp [begin, Ruleset.ofSheet]⟩
  | move m h _ ih =>
      cases m with
      | call c => exact ⟨ih.reachable.call c h, ih.declared, ih.keys⟩
      | setConstraints statements => exact ⟨ih.reachable, ih.declared, ih.keys⟩
      | pushConstraint statement => exact ⟨ih.reachable, ih.declared, ih.keys⟩
      | apply => exact (ih.apply h).1

/-- Where passes reset, every variable is the host's or one of the last pass. -/
theorem Lived.host_or_latest {t : History W} (ht : t.Lived)
    (hreset : t.ruleset.settings.resetVariables = true) {k : String}
    (hk : k ∈ t.ruleset.session.table.variableNames) :
    t.declarer k = some .host ∨ k ∈ t.latest := by
  have hinitial : (Table.initial : Table W).variableNames = [] := rfl
  induction ht generalizing k with
  | create engine passes =>
      change k ∈ (Table.initial : Table W).variableNames at hk
      rw [hinitial] at hk
      cases hk
  | ofSheet sheet =>
      change k ∈ (Table.initial : Table W).variableNames at hk
      rw [hinitial] at hk
      cases hk
  | @move t m h ht ih =>
      cases m with
      | call c =>
          obtain ⟨new, hnew, hnames⟩ := t.ruleset.session.names_answer c h
          have hdeclarer : (t.advance h (.call c)).declarer k =
              t.noted .host (declaredKeys new) k := by
            rw [← Host.since_eq hnew]
            rfl
          rw [hdeclarer, noted]
          split
          · exact .inl rfl
          · rename_i hold
            exact ih hreset ((hnames k hk).resolve_right hold)
      | setConstraints statements => exact ih hreset hk
      | pushConstraint statement => exact ih hreset hk
      | apply =>
          obtain ⟨_, hnames, hfresh⟩ := ht.sound.apply h
          have hbefore : t.ruleset.settings.resetVariables = true := by
            change (t.ruleset.apply.run h).1.2.settings.resetVariables = true at hreset
            rwa [Ruleset.run_apply] at hreset
          rcases (hnames k).mp hk with hcleared | hlatest
          · left
            obtain ⟨hold, hnot⟩ :=
              (Ruleset.mem_variableNames_cleared ht.sound.keys k).mp hcleared
            rw [hbefore, ht.sound.declared] at hnot
            have hdeclarer : (t.advance h .apply).declarer k =
                if k ∈ (t.advance h .apply).latest then some .pass else t.declarer k := rfl
            rw [hdeclarer, if_neg fun hl => hfresh k hl hcleared]
            exact (ih hbefore hold).resolve_right (hnot.resolve_left (by simp))
          · exact .inr hlatest

/-- A variable that the host declared last is still there after a pass, and is still the
host's, exactly when nothing is reset or the pass before did not declare its name. If
it was removed, it is there again only as a variable of the pass. -/
theorem apply_keeps_host_variable_iff {t : History W} (ht : t.Lived) {k : String}
    (hk : k ∈ t.ruleset.session.table.variableNames) (hhost : t.declarer k = some .host)
    (h : Host W) :
    (k ∈ (t.advance h .apply).ruleset.session.table.variableNames ↔
      t.ruleset.settings.resetVariables = false ∨ k ∉ t.latest ∨
        k ∈ (t.advance h .apply).latest) ∧
    (k ∈ (t.advance h .apply).ruleset.session.table.variableNames ∧
        (t.advance h .apply).declarer k = some .host ↔
      t.ruleset.settings.resetVariables = false ∨ k ∉ t.latest) := by
  obtain ⟨_, hnames, hfresh⟩ := ht.sound.apply h
  have hcleared := Ruleset.mem_variableNames_cleared ht.sound.keys k
  rw [ht.sound.declared] at hcleared
  have hdeclarer : (t.advance h .apply).declarer k =
      if k ∈ (t.advance h .apply).latest then some .pass else t.declarer k := rfl
  constructor
  · rw [hnames, hcleared, ← or_assoc]
    simp [hk]
  · constructor
    · intro hboth
      rcases hboth with ⟨hafter, hdecl⟩
      rw [hdeclarer] at hdecl
      split at hdecl
      · cases hdecl
      · rename_i hnew
        rcases (hnames k).mp hafter with hc | hl
        · exact (hcleared.mp hc).2
        · exact absurd hl hnew
    · intro hspared
      have hc := hcleared.mpr ⟨hk, hspared⟩
      refine ⟨(hnames k).mpr (.inl hc), ?_⟩
      rw [hdeclarer, if_neg fun hl => hfresh k hl hc]
      exact hhost

/-- A pass that removes the variable of the pass before it, and spares that of the host. -/
theorem apply_keeps_host_variable_beside_pass :
    let h : Host Unit := ⟨(), []⟩
    let ruled := (begin (.create {} {})).advance h (.setConstraints ["var b = 1"])
    let called := (ruled.advance h .apply).advance h (.call (.evaluate "var a = b + 4"))
    let t := called.advance h (.setConstraints ["var c = a"])
    t.Lived ∧ t.ruleset.settings.resetVariables = true ∧
      t.ruleset.session.table.variableNames = ["b", "a"] ∧ t.declarer "a" = some .host ∧
      t.latest = ["b"] ∧
      "a" ∈ (t.advance h .apply).ruleset.session.table.variableNames ∧
      (t.advance h .apply).declarer "a" = some .host ∧
      (t.advance h .apply).ruleset.session.table.variableNames = ["a", "c"] := by
  intro h ruled called t
  have hl : t.Lived := .move _ h (.move _ h (.move _ h (.move _ h (.create {} {}))))
  have hnames : t.ruleset.session.table.variableNames = ["b", "a"] := by decide +kernel
  have hhost : t.declarer "a" = some .host := by decide +kernel
  have hlatest : t.latest = ["b"] := by decide +kernel
  have ha : "a" ∈ t.ruleset.session.table.variableNames := by simp [hnames]
  obtain ⟨hafter, hdeclarer⟩ := (apply_keeps_host_variable_iff hl ha hhost h).2.mpr
    (.inr (by simp [hlatest]))
  exact ⟨hl, by decide +kernel, hnames, hhost, hlatest, hafter, hdeclarer, by decide +kernel⟩

/-- A host's variable that a pass removes: the pass before declared the name, and the
host has removed the variable and declared it again. -/
theorem apply_removes_host_variable :
    ∃ (t : History Unit) (k : String) (h : Host Unit), t.Lived ∧
      k ∈ t.ruleset.session.table.variableNames ∧ t.declarer k = some .host ∧
      k ∉ (t.advance h .apply).ruleset.session.table.variableNames := by
  let h : Host Unit := ⟨(), []⟩
  let t₁ := (begin (.create {} {})).advance h (.setConstraints ["var a = 1"])
  let t₂ := t₁.advance h .apply
  let t₃ := t₂.advance h (.call (.removeVariable "a"))
  let t₄ := t₃.advance h (.call (.evaluate "var a = 5"))
  let t₅ := t₄.advance h (.setConstraints [])
  have hl : t₅.Lived :=
    .move _ h (.move _ h (.move _ h (.move _ h (.move _ h (.create {} {})))))
  exact ⟨t₅, "a", h, hl, by decide +kernel, by decide +kernel, by decide +kernel⟩

end History
end RuleSheet
