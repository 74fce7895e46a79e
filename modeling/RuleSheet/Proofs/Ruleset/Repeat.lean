import RuleSheet.Proofs.Alike
import RuleSheet.Proofs.Ruleset.History

/-!
# Passes that agree

A statement adds variables and gives new values to those that are there; whatever is no
variable, it leaves as it is. When all variables are those of the last pass, the reset
before the next one leaves no variable at all, so that every further pass starts from
one and the same session. If the getters go on answering the same, all passes end alike.

The host's variables are the only ones that outlive a reset, so it is enough that there
are none.
-/
namespace RuleSheet
variable {W : Type}

namespace Session

theorem eq_of_entries {s s' : Session W} (hsettings : s.settings = s'.settings)
    (hentries : s.table.entries = s'.table.entries) : s = s' := by
  obtain ⟨⟨entries, distinct⟩, settings⟩ := s
  obtain ⟨⟨entries', distinct'⟩, settings'⟩ := s'
  cases hsettings
  cases hentries
  rfl

theorem clearVariables_evaluate (s : Session W) (statement : String) (h : Host W) :
    ((s.evaluate statement).run h).1.2.clearVariables = s.clearVariables := by
  rcases evaluate_cases s statement h with ⟨e, j, hout, _⟩ | ⟨x, s', h', f, hout, hf⟩
  · rw [hout]
  · rw [hout]
    cases f with
    | nothing =>
        obtain ⟨_, rfl, _⟩ := hf
        rfl
    | declared k =>
        obtain ⟨_, _, hsettings, hentries, _⟩ := hf
        refine eq_of_entries hsettings ?_
        change s'.table.entries.filter _ = s.table.entries.filter _
        rw [hentries, List.filter_append]
        exact List.append_nil _
    | replaced k =>
        obtain ⟨_, ⟨y, hy⟩, hsettings, ht, _⟩ := hf
        exact eq_of_entries hsettings (ht.filter hy)
    | written k a =>
        obtain ⟨_, _, rfl, _⟩ := hf
        rfl

@[simp] theorem clearVariables_clearVariables (s : Session W) :
    s.clearVariables.clearVariables = s.clearVariables := by
  refine eq_of_entries rfl ?_
  change (s.table.entries.filter _).filter _ = s.table.entries.filter _
  rw [List.filter_filter]
  simp only [Bool.and_self]

@[simp] theorem find?_clearVariables_accessor {s : Session W} {k : String} {a : Accessor W} :
    s.clearVariables.table.find? k = some (.accessor a) ↔
      s.table.find? k = some (.accessor a) := by
  change (s.table.keep _).find? k = _ ↔ _
  rw [Table.find?_keep, Option.filter_eq_some_iff]
  exact and_iff_left rfl

theorem unmoved_of_clearVariables {s s' : Session W} {P : W → Prop} (hs : s.table.Unmoved P)
    (h : s'.clearVariables = s.clearVariables) : s'.table.Unmoved P := by
  refine hs.mono fun k a ha => ?_
  rw [← find?_clearVariables_accessor, h, find?_clearVariables_accessor] at ha
  exact ha

end Session

namespace Ruleset

theorem clearVariables_runFrom (s : Session W) (h : Host W) (index : Nat)
    (statements : List String) :
    ((runFrom s index statements).run h).1.2.clearVariables = s.clearVariables :=
  runFrom_induction (P := fun s' _ => s'.clearVariables = s.clearVariables)
    (fun s' h' statement hs => (s'.clearVariables_evaluate statement h').trans hs)
    (fun _ _ _ _ _ hs => hs) rfl index statements

/-- The statements of a pass answer the same from all worlds that its accessors lead to. -/
theorem alike_runFrom {s : Session W} {P : W → Prop} (hs : s.table.Unmoved P) (index : Nat)
    (statements : List String) : Act.Alike P (runFrom s index statements) := by
  induction statements generalizing s index with
  | nil => exact .pure P _
  | cons statement rest ih =>
      by_cases hb : isBlankStatement statement = true
      · rw [runFrom_blank hb]
        exact ih hs (index + 1)
      · rw [runFrom, if_neg hb]
        refine (Session.alike_evaluate hs statement).bind fun h _ => ?_
        have hnext := Session.unmoved_of_clearVariables hs (s.clearVariables_evaluate statement h)
        generalize ((s.evaluate statement).run h).1 = out at hnext
        obtain ⟨e | x, s'⟩ := out
        · exact .bind (Act.alike_record P _) fun _ _ =>
            .bind (ih hnext (index + 1)) fun _ _ => .pure P _
        · exact .bind (ih hnext (index + 1)) fun _ _ => .pure P _

/-- `n` passes, one after the other: what each reports, and the session that it leaves. -/
def passes (r : Ruleset W) : Nat → Act W (List (Report × Session W))
  | 0 => return []
  | n + 1 => do
      let (report, next) ← r.apply
      let rest ← next.passes n
      return (report, next.session) :: rest

/-- All variables are those of the last pass, and will be reset. -/
structure Resets (r : Ruleset W) : Prop where
  reset : r.settings.resetVariables = true
  reachable : r.session.Reachable
  keys : ∀ k ∈ r.declared, Table.key k = k
  declared : ∀ k ∈ r.session.table.variableNames, k ∈ r.declared

@[simp] theorem settings_cleared (r : Ruleset W) : r.cleared.settings = r.session.settings := by
  have hfold : ∀ (names : List String) (s : Session W),
      (names.foldl (fun s name => (s.removeVariable name).2) s).settings = s.settings := by
    intro names
    induction names with
    | nil => exact fun s => rfl
    | cons name rest ih => exact fun s => ih _
  unfold Ruleset.cleared
  split
  · exact hfold r.declared r.session
  · rfl

/-- Where all variables are those of the last pass, the reset leaves none. -/
theorem Resets.cleared_eq {r : Ruleset W} (hr : r.Resets) :
    r.cleared = r.session.clearVariables := by
  refine Session.eq_of_entries (settings_cleared r) ?_
  rw [entries_cleared hr.reset hr.keys]
  refine List.filter_congr fun e he => ?_
  cases hvariable : e.2.isVariable with
  | false => rfl
  | true =>
      have hname : e.1 ∈ r.session.table.variableNames :=
        List.mem_map.mpr ⟨e, List.mem_filter.mpr ⟨he, hvariable⟩, rfl⟩
      simp [hr.declared e.1 hname]

/-- After a pass it is so again, and the next pass starts where this one did. -/
theorem Resets.apply {r : Ruleset W} (hr : r.Resets) (h : Host W) :
    (r.apply.run h).1.2.Resets ∧ (r.apply.run h).1.2.cleared = r.cleared := by
  have hreach := reachable_runFrom (reachable_cleared hr.reachable h) h 0 r.constraints
  have hkept := clearVariables_runFrom r.cleared h 0 r.constraints
  have hrun := run_apply r h
  generalize (runFrom r.cleared 0 r.constraints).run h = after at hreach hkept hrun
  have hnone : r.cleared.table.variableNames = [] := by
    refine List.eq_nil_iff_forall_not_mem.mpr fun k hk => ?_
    obtain ⟨hname, hnot⟩ := (mem_variableNames_cleared hr.keys k).mp hk
    rw [hr.reset] at hnot
    exact hnot.elim (by simp) fun hnew => hnew (hr.declared k hname)
  have hresets : (r.apply.run h).1.2.Resets := by
    rw [hrun]
    refine ⟨hr.reset, hreach, ?_, ?_⟩
    · intro k hk
      obtain ⟨x, hx⟩ := Table.mem_variableNames.mp (List.mem_filter.mp hk).1
      exact (hreach.named.identifier (Option.isSome_of_eq_some hx)).key
    · intro k hk
      exact List.mem_filter.mpr ⟨hk, by simp [hnone]⟩
  refine ⟨hresets, ?_⟩
  rw [hresets.cleared_eq, hrun]
  dsimp only
  rw [hkept, hr.cleared_eq, Session.clearVariables_clearVariables]

theorem run_passes {r : Ruleset W} (hr : r.Resets) {P : W → Prop}
    (hP : r.cleared.table.Unmoved P) {h : Host W} (hw : P h.world) (n : Nat) :
    ((r.passes n).run h).1 =
      List.replicate n ((runFrom r.cleared 0 r.constraints).run h).1 := by
  induction n generalizing r h with
  | zero => rfl
  | succ n ih =>
      obtain ⟨hnext, hcleared⟩ := hr.apply h
      have halike := alike_runFrom hP 0 r.constraints
      have hworld : P (r.apply.run h).2.world := halike.stays h hw
      have hconstraints : (r.apply.run h).1.2.constraints = r.constraints := by rw [run_apply]
      have hrest := ih hnext (hcleared ▸ hP) hworld
      rw [hcleared, hconstraints, halike.answer _ h hworld hw] at hrest
      have hfirst : ((r.passes (n + 1)).run h).1 =
          ((runFrom r.cleared 0 r.constraints).run h).1 ::
            (((r.apply.run h).1.2.passes n).run (r.apply.run h).2).1 := rfl
      rw [hfirst, hrest, List.replicate_succ]

end Ruleset
namespace History

/-- Where passes reset, the host has no variables and no getter ever answers anything else,
any number of passes report the same and leave the same session, with the same table. -/
theorem passes_agree {t : History W} (ht : t.Lived)
    (hreset : t.ruleset.settings.resetVariables = true)
    (hhost : ∀ k ∈ t.ruleset.session.table.variableNames, t.declarer k ≠ some .host)
    {h : Host W} (hconstant : t.ruleset.session.table.Constant h.world) :
    ∃ report session, ∀ n,
      ((t.ruleset.passes n).run h).1 = List.replicate n (report, session) := by
  have hresets : t.ruleset.Resets :=
    ⟨hreset, ht.sound.reachable, ht.sound.keys, fun k hk =>
      (ht.sound.declared k).mpr ((ht.host_or_latest hreset hk).resolve_left (hhost k hk))⟩
  have hunmoved : t.ruleset.cleared.table.Unmoved
      (t.ruleset.session.table.Touches h.world) := by
    refine Session.unmoved_of_clearVariables hconstant.unmoved ?_
    rw [hresets.cleared_eq, Session.clearVariables_clearVariables]
  exact ⟨_, _, fun n => Ruleset.run_passes hresets hunmoved (.done h.world) n⟩

/-- Passes that read and write a value which stays the same, while its calls are counted. -/
theorem passes_agree_counting_calls :
    let a : Accessor Nat := ⟨"x", fun w => (2, w + 1), fun _ w => w + 1⟩
    let h : Host Nat := ⟨0, []⟩
    let t := ((begin (.create {} {})).advance h (.call (.register "x" a))).advance h
      (.setConstraints ["var y = 2 * x", "x = y", "y = z"])
    t.Lived ∧ "x" ∈ t.ruleset.session.table.accessorNames ∧
      t.ruleset.settings.resetVariables = true ∧
      (∀ k ∈ t.ruleset.session.table.variableNames, t.declarer k ≠ some .host) ∧
      t.ruleset.session.table.Constant h.world ∧
      ∃ report session, ∀ n,
        ((t.ruleset.passes n).run h).1 = List.replicate n (report, session) := by
  intro a h t
  have hl : t.Lived := .move _ h (.move _ h (.create {} {}))
  have hx : "x" ∈ t.ruleset.session.table.accessorNames := by decide +kernel
  have hreset : t.ruleset.settings.resetVariables = true := rfl
  have hhost : ∀ k ∈ t.ruleset.session.table.variableNames, t.declarer k ≠ some .host := by
    decide +kernel
  have honly : ∀ k b, t.ruleset.session.table.find? k = some (.accessor b) → b = a := by
    intro k b hb
    change (((Session.create {}).answer (.register "x" a)).run h).1.table.find? k = _ at hb
    rw [Session.run_answer_register, Table.find?_eq_some_iff] at hb
    rcases Session.register_cases (.create {}) "x" a h with ⟨e, hout⟩ | ⟨u, _, hu, hout⟩
    · rw [hout] at hb
      simp [Session.create, Table.initial] at hb
    · rw [hout] at hb
      have hboth : k = Table.key (Session.folded "x") ∧ b = a := by
        simpa [hu, Session.create, Table.initial] using hb
      exact hboth.2
  have hconstant : t.ruleset.session.table.Constant h.world := by
    intro k b v hb _
    obtain rfl := honly k b hb
    rfl
  exact ⟨hl, hx, hreset, hhost, hconstant, passes_agree hl hreset hhost hconstant⟩

end History
end RuleSheet
