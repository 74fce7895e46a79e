import Mathlib.Data.List.Basic
import RuleSheet.Symbols

/-!
# Looking into the table

The entries of a table and its lookups say the same, since no key occurs twice. A table in
which a variable has a new value is told from the one before by what is found in it.
-/
namespace RuleSheet.Table
variable {W : Type}

theorem lookup_of_mem {entries : List (String × Symbol W)} {k : String} {s : Symbol W}
    (hd : (entries.map Prod.fst).Nodup) (h : (k, s) ∈ entries) : entries.lookup k = some s := by
  induction entries with
  | nil => cases h
  | cons e rest ih =>
      obtain ⟨name, u⟩ := e
      rw [List.map_cons, List.nodup_cons] at hd
      rcases List.mem_cons.mp h with he | hr
      · cases he
        simp
      · have hne : k ≠ name := by
          intro heq
          subst heq
          exact hd.1 (List.mem_map.mpr ⟨(k, s), hr, rfl⟩)
        rw [List.lookup_cons, beq_eq_false_iff_ne.mpr hne]
        exact ih hd.2 hr

theorem mem_of_lookup {entries : List (String × Symbol W)} {k : String} {s : Symbol W}
    (h : entries.lookup k = some s) : (k, s) ∈ entries := by
  induction entries with
  | nil => cases h
  | cons e rest ih =>
      obtain ⟨name, u⟩ := e
      rw [List.lookup_cons] at h
      split at h
      · rename_i hk
        obtain rfl := eq_of_beq hk
        cases h
        exact .head _
      · exact .tail _ (ih h)

theorem find?_eq_some_iff {t : Table W} {k : String} {s : Symbol W} :
    t.find? k = some s ↔ (k, s) ∈ t.entries :=
  ⟨mem_of_lookup, lookup_of_mem t.distinct⟩

theorem mem_names_iff {t : Table W} {p : Symbol W → Bool} {k : String} :
    k ∈ (t.entries.filter fun e => p e.2).map Prod.fst ↔
      ∃ s, t.find? k = some s ∧ p s = true := by
  rw [List.mem_map]
  constructor
  · rintro ⟨⟨name, s⟩, hm, rfl⟩
    obtain ⟨hm, hs⟩ := List.mem_filter.mp hm
    exact ⟨s, find?_eq_some_iff.mpr hm, hs⟩
  · rintro ⟨s, hk, hs⟩
    exact ⟨(k, s), List.mem_filter.mpr ⟨find?_eq_some_iff.mp hk, hs⟩, rfl⟩

theorem mem_variableNames {t : Table W} {k : String} :
    k ∈ t.variableNames ↔ ∃ x, t.find? k = some (.variable x) := by
  rw [variableNames, mem_names_iff]
  constructor
  · rintro ⟨s, hk, hs⟩
    cases s with
    | «variable» x => exact ⟨x, hk⟩
    | constant x => cases hs
    | accessor a => cases hs
  · rintro ⟨x, hx⟩
    exact ⟨_, hx, rfl⟩

theorem nodup_variableNames (t : Table W) : t.variableNames.Nodup :=
  List.Pairwise.sublist (List.filter_sublist.map _) t.distinct

theorem mem_accessorNames {t : Table W} {k : String} :
    k ∈ t.accessorNames ↔ ∃ a, t.find? k = some (.accessor a) := by
  rw [accessorNames, mem_names_iff]
  constructor
  · rintro ⟨s, hk, hs⟩
    cases s with
    | accessor a => exact ⟨a, hk⟩
    | constant x => cases hs
    | «variable» x => cases hs
  · rintro ⟨a, ha⟩
    exact ⟨_, ha, rfl⟩

theorem mem_variableNames_keep {t : Table W} {p : String × Symbol W → Bool} {k : String}
    (hk : k ∈ (t.keep p).variableNames) : k ∈ t.variableNames := by
  obtain ⟨e, he, rfl⟩ := List.mem_map.mp hk
  obtain ⟨he, hvariable⟩ := List.mem_filter.mp he
  exact List.mem_map.mpr ⟨e, List.mem_filter.mpr ⟨(List.mem_filter.mp he).1, hvariable⟩, rfl⟩

theorem mem_variableNames_remove {t : Table W} {kind : Symbol W → Bool} {name k : String}
    (hk : k ∈ (t.remove kind name).2.variableNames) : k ∈ t.variableNames := by
  unfold remove at hk
  split at hk
  · exact mem_variableNames_keep hk
  · exact hk

theorem find?_of_remove {t : Table W} {kind : Symbol W → Bool} {name k : String} {s : Symbol W}
    (h : (t.remove kind name).2.find? k = some s) : t.find? k = some s := by
  unfold remove at h
  split at h
  · rw [find?_keep, Option.filter_eq_some_iff] at h
    exact h.1
  · exact h

theorem find?_initial_eq_some_iff {k : String} {s : Symbol W} :
    (initial : Table W).find? k = some s ↔ ∃ x, (k, x) ∈ constants ∧ s = .constant x := by
  rw [find?_eq_some_iff, initial, List.mem_map]
  constructor
  · rintro ⟨⟨name, x⟩, hx, heq⟩
    cases heq
    exact ⟨x, hx, rfl⟩
  · rintro ⟨x, hx, rfl⟩
    exact ⟨(k, x), hx, rfl⟩

theorem find?_initial_ne_accessor {k : String} {a : Accessor W} :
    (initial : Table W).find? k ≠ some (.accessor a) := by
  intro h
  obtain ⟨x, -, hx⟩ := find?_initial_eq_some_iff.mp h
  cases hx

theorem run_resolve_variable {t : Table W} {name : String} {x : Float}
    (hx : t.get name = some (.variable x)) (h : Host W) :
    (t.resolve name).run h = (some x, h) := by
  rw [resolve, hx]
  rfl

theorem run_resolve_accessor {t : Table W} {name : String} {a : Accessor W}
    (ha : t.get name = some (.accessor a)) (h : Host W) :
    (t.resolve name).run h =
      (some (a.get h.world).1,
        ⟨(a.get h.world).2, h.events ++ [.got a.label (a.get h.world).1]⟩) := by
  rw [resolve, ha]
  dsimp only
  rw [StateT.run_bind, Accessor.run_read]
  rfl

/-- The names, in order, and what is found under each tell the entries. -/
theorem entries_eq_filterMap (t : Table W) :
    t.entries = (t.entries.map Prod.fst).filterMap fun k => (t.find? k).map (k, ·) := by
  have hfound : ∀ e ∈ t.entries, (t.find? e.1).map (e.1, ·) = some e := by
    intro e he
    rw [find?_eq_some_iff.mpr he]
    rfl
  rw [List.filterMap_map]
  exact ((List.filterMap_congr hfound).trans List.filterMap_some).symm

/-- The second table has a new value for the variable that the first keeps under a key. Its
names, in order, and all else that is found in it are those of the first. -/
structure Replaces (t : Table W) (k : String) (x : Float) (t' : Table W) : Prop where
  names : t'.entries.map Prod.fst = t.entries.map Prod.fst
  value : t'.find? k = some (.variable x)
  others : ∀ j, j ≠ k → t'.find? j = t.find? j

theorem replaces_store {t : Table W} {k : String} {y : Float}
    (hk : t.find? k = some (.variable y)) (x : Float) : t.Replaces k x (t.store k x) where
  names := by
    change (t.entries.map _).map _ = _
    rw [List.map_map]
    apply List.map_congr_left
    intro e _
    rw [Function.comp_apply]
    split
    · rfl
    · rfl
  value := by
    rw [find?_store, if_pos rfl, hk]
    rfl
  others j hj := by rw [find?_store, if_neg hj]

theorem Replaces.mem_variableNames {t t' : Table W} {k : String} {x y : Float}
    (h : t.Replaces k x t') (hk : t.find? k = some (.variable y)) (j : String) :
    j ∈ t'.variableNames ↔ j ∈ t.variableNames := by
  rw [Table.mem_variableNames, Table.mem_variableNames]
  by_cases hj : j = k
  · rw [hj, h.value, hk]
    simp
  · rw [h.others j hj]

/-- All that is not a variable is kept, and in the same order. -/
theorem Replaces.filter {t t' : Table W} {k : String} {x y : Float} (h : t.Replaces k x t')
    (hk : t.find? k = some (.variable y)) :
    t'.entries.filter (fun e => !e.2.isVariable) =
      t.entries.filter fun e => !e.2.isVariable := by
  rw [t'.entries_eq_filterMap, t.entries_eq_filterMap, h.names, List.filter_filterMap,
    List.filter_filterMap]
  apply List.filterMap_congr
  intro j _
  by_cases hj : j = k
  · rw [hj, h.value, hk]
    rfl
  · rw [h.others j hj]

end RuleSheet.Table
