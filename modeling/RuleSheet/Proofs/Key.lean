import RuleSheet.Proofs.Session.Spelling

/-!
# Two spellings of one name

The table keeps a name under its key, and the key is lowered only if there is a capital
in the name. Some characters are no capitals and still have a small form: the title
forms of the ligatures ǆ, ǉ, ǌ and ǳ, and of the Greek vowels with iota. A name with
such a character and without a capital is kept as it is spelled. All other names are
kept in their folded form.

So two spellings that fold to the same text are the same name to all operations of the
table, unless one of them is kept as it is spelled.
-/
namespace RuleSheet
open Text
variable {W : Type}

namespace Text

/-- The title forms: the ligatures with one capital, and the Greek capitals with iota. -/
def titleStretches : List Stretch :=
  [⟨0x1c5, 0x1cb, 3⟩, ⟨0x1f2, 0x1f2, 1⟩, ⟨0x1f88, 0x1f8f, 1⟩, ⟨0x1f98, 0x1f9f, 1⟩,
   ⟨0x1fa8, 0x1faf, 1⟩, ⟨0x1fbc, 0x1fbc, 1⟩, ⟨0x1fcc, 0x1fcc, 1⟩, ⟨0x1ffc, 0x1ffc, 1⟩]

def isTitle (c : Char) : Bool :=
  Stretch.covers titleStretches c.toNat

theorem of_isTitle {p : Char → Prop}
    (h : ∀ n ∈ titleStretches.flatMap Stretch.members, p (Char.ofNat n)) {c : Char}
    (hc : isTitle c = true) : p c := by
  obtain ⟨s, hs, hn⟩ := Stretch.has_of_covers hc
  have hp := h c.toNat (List.mem_flatMap.mpr ⟨s, hs, Stretch.mem_members hn⟩)
  rwa [Char.ofNat_toNat] at hp

/-- Every character on one of the stretches that change is a capital or a title form. -/
theorem isUpper_or_isTitle_of_has {e : Stretch × Int} (he : e ∈ lowerShifts) {c : Char}
    (hc : e.1.has c.toNat = true) : isUpper c = true ∨ isTitle c = true := by
  have hmembers : ∀ e ∈ lowerShifts, ∀ n ∈ e.1.members,
      (Stretch.covers (Stretch.notBefore e.1.first upperStretches) n ||
        Stretch.covers titleStretches n) = true := by
    decide +kernel
  have hn := hmembers e he c.toNat (Stretch.mem_members hc)
  rw [Stretch.covers_notBefore (Stretch.has_iff.mp hc).1] at hn
  exact Bool.or_eq_true_iff.mp hn

theorem exists_has_of_lowerCode_ne {shifts : List (Stretch × Int)} {n : Nat}
    (h : lowerCode shifts n ≠ n) : ∃ e ∈ shifts, e.1.has n = true := by
  induction shifts with
  | nil => exact absurd rfl h
  | cons e rest ih =>
      obtain ⟨s, shift⟩ := e
      rw [lowerCode] at h
      by_cases hfirst : n < s.first
      · rw [if_pos hfirst] at h
        exact absurd rfl h
      · rw [if_neg hfirst] at h
        by_cases hlast : n ≤ s.last
        · rw [if_pos hlast] at h
          by_cases hn : s.has n = true
          · exact ⟨(s, shift), .head _, hn⟩
          · rw [if_neg hn] at h
            exact absurd rfl h
        · rw [if_neg hlast] at h
          obtain ⟨e, he, hn⟩ := ih h
          exact ⟨e, .tail _ he, hn⟩

/-- The title forms are the characters that have a small form and are no capitals. -/
theorem isTitle_iff {c : Char} : isTitle c = true ↔ isUpper c = false ∧ ¬IsSettled c := by
  constructor
  · intro h
    exact of_isTitle (p := fun c => isUpper c = false ∧ ¬IsSettled c) (by decide +kernel) h
  · rintro ⟨hupper, hsettled⟩
    have hdotted : c ≠ dottedCapitalI := by
      rintro rfl
      exact absurd hupper (by decide +kernel)
    have hcode : lowerCode lowerShifts c.toNat ≠ c.toNat := by
      intro hcode
      apply hsettled
      rw [IsSettled, lowerChar, if_neg hdotted, hcode, Char.ofNat_toNat]
    obtain ⟨e, he, hn⟩ := exists_has_of_lowerCode_ne hcode
    exact (isUpper_or_isTitle_of_has he hn).resolve_left (by simp [hupper])

end Text

namespace Table

/-- The name has a title form in it and no capital. -/
structure KeepsTitle (name : String) : Prop where
  title : ∃ c ∈ trim name.toList, isTitle c = true
  no_capital : ∀ c ∈ trim name.toList, isUpper c = false

instance : DecidablePred KeepsTitle := fun name =>
  decidable_of_iff
    ((trim name.toList).any isTitle = true ∧ (trim name.toList).any isUpper = false)
    ⟨fun h => ⟨List.any_eq_true.mp h.1, by simpa using h.2⟩,
      fun h => ⟨List.any_eq_true.mpr h.1, by simpa using h.2⟩⟩

theorem key_of_capital {name : String} {c : Char} (hc : c ∈ trim name.toList)
    (hupper : isUpper c = true) : key name = Session.folded name := by
  unfold key
  dsimp only
  rw [if_pos (List.any_eq_true.mpr ⟨c, hc, hupper⟩)]
  rfl

theorem key_of_no_capital {name : String} (h : ∀ c ∈ trim name.toList, isUpper c = false) :
    key name = String.ofList (trim name.toList) := by
  unfold key
  dsimp only
  rw [if_neg]
  simpa using h

/-- Names that are not kept with a title form are kept in their folded form. -/
theorem key_eq_folded {name : String} (h : ¬KeepsTitle name) : key name = Session.folded name := by
  by_cases hcapital : ∃ c ∈ trim name.toList, isUpper c = true
  · obtain ⟨c, hc, hupper⟩ := hcapital
    exact key_of_capital hc hupper
  · have hnone : ∀ c ∈ trim name.toList, isUpper c = false := by
      intro c hc
      rw [Bool.eq_false_iff]
      exact fun hupper => hcapital ⟨c, hc, hupper⟩
    have hsettled : ∀ c ∈ trim name.toList, IsSettled c := by
      intro c hc
      by_contra hc'
      exact h ⟨⟨c, hc, isTitle_iff.mpr ⟨hnone c hc, hc'⟩⟩, hnone⟩
    rw [key_of_no_capital hnone, Session.folded, Session.fold, lower_eq_self hsettled]

theorem KeepsTitle.key_ne_folded {a : String} (ha : KeepsTitle a) (b : String) :
    key a ≠ Session.folded b := by
  intro heq
  obtain ⟨c, hc, htitle⟩ := ha.title
  have hlist := congrArg String.toList heq
  rw [key_of_no_capital ha.no_capital, String.toList_ofList, Session.toList_folded] at hlist
  exact (isTitle_iff.mp htitle).2 (isSettled_of_mem_lowerAfter c (hlist ▸ hc))

theorem key_of_trim_eq {a b : String} (h : trim a.toList = trim b.toList) : key a = key b := by
  unfold key
  rw [h]

/-- Names that fold to the same text have the same key, unless one of them is kept as it
is spelled. -/
theorem key_eq_key_iff {a b : String} (h : Session.fold a.toList = Session.fold b.toList) :
    key a = key b ↔ trim a.toList = trim b.toList ∨ (¬KeepsTitle a ∧ ¬KeepsTitle b) := by
  constructor
  · intro hkey
    by_cases ha : KeepsTitle a
    · by_cases hb : KeepsTitle b
      · rw [key_of_no_capital ha.no_capital, key_of_no_capital hb.no_capital] at hkey
        exact .inl (String.ofList_injective hkey)
      · rw [key_eq_folded hb] at hkey
        exact absurd hkey (ha.key_ne_folded b)
    · by_cases hb : KeepsTitle b
      · rw [key_eq_folded ha] at hkey
        exact absurd hkey.symm (hb.key_ne_folded a)
      · exact .inr ⟨ha, hb⟩
  · rintro (htrim | ⟨ha, hb⟩)
    · exact key_of_trim_eq htrim
    · rw [key_eq_folded ha, key_eq_folded hb, Session.folded, Session.folded, h]

/-- No operation of the table tells the two spellings apart. -/
structure SameName (t : Table W) (a b : String) : Prop where
  contains : t.contains a = t.contains b
  get : t.get a = t.get b
  resolve : t.resolve a = t.resolve b
  variableValue : t.variableValue a = t.variableValue b
  declare : ∀ x, t.declare a x = t.declare b x
  insertAccessor : ∀ accessor, t.insertAccessor a accessor = t.insertAccessor b accessor
  assign : ∀ x, t.assign a x = t.assign b x
  removeAccessor : t.removeAccessor a = t.removeAccessor b
  removeVariable : t.removeVariable a = t.removeVariable b

theorem insert_of_find?_eq_none {t : Table W} {name : String} (h : t.find? (key name) = none)
    (s : Symbol W) : t.insert name s = .ok (t.add (key name) s h) := by
  unfold insert
  split
  · rfl
  · rename_i hs
    rw [h] at hs
    cases hs

theorem insert_of_find?_eq_some {t : Table W} {name : String} {u : Symbol W}
    (h : t.find? (key name) = some u) (s : Symbol W) :
    t.insert name s = .error (.duplicateName (key name)) := by
  unfold insert
  split
  · rename_i hs
    rw [h] at hs
    cases hs
  · rfl

theorem insert_congr {a b : String} (h : key a = key b) (t : Table W) (s : Symbol W) :
    t.insert a s = t.insert b s := by
  cases ha : t.find? (key a) with
  | none =>
      rw [insert_of_find?_eq_none ha, insert_of_find?_eq_none (h ▸ ha)]
      congr 2
  | some u => rw [insert_of_find?_eq_some ha, insert_of_find?_eq_some (h ▸ ha), h]

theorem key_eq_of_insert_eq {t : Table W} {a b : String} {s : Symbol W}
    (h : t.insert a s = t.insert b s) : key a = key b := by
  cases ha : t.find? (key a) with
  | none =>
      rw [insert_of_find?_eq_none ha] at h
      cases hb : t.find? (key b) with
      | none =>
          rw [insert_of_find?_eq_none hb] at h
          have hentries : t.entries ++ [(key a, s)] = t.entries ++ [(key b, s)] :=
            congrArg entries (Except.ok.inj h)
          rw [List.append_cancel_left_eq, List.cons.injEq] at hentries
          exact (Prod.mk.inj hentries.1).1
      | some u =>
          rw [insert_of_find?_eq_some hb] at h
          cases h
  | some u =>
      rw [insert_of_find?_eq_some ha] at h
      cases hb : t.find? (key b) with
      | none =>
          rw [insert_of_find?_eq_none hb] at h
          cases h
      | some v =>
          rw [insert_of_find?_eq_some hb] at h
          exact StatementError.duplicateName.inj (Except.error.inj h)

/-- The key is all that the operations see of a name. -/
theorem sameName_iff_key_eq {t : Table W} {a b : String} : t.SameName a b ↔ key a = key b := by
  refine ⟨fun h => key_eq_of_insert_eq (h.declare 0), fun h => ?_⟩
  have hget : t.get a = t.get b := congrArg t.find? h
  exact {
    contains := congrArg Option.isSome hget
    get := hget
    resolve := by unfold resolve; rw [hget]
    variableValue := by unfold variableValue; rw [hget]
    declare := fun x => insert_congr h t _
    insertAccessor := fun accessor => insert_congr h t _
    assign := fun x => by unfold assign; rw [hget, h]
    removeAccessor := by unfold removeAccessor remove; rw [hget, h]
    removeVariable := by unfold removeVariable remove; rw [hget, h] }

/-- Two spellings that fold to the same text are the same name to all operations, on every
table, exactly if they are equal between the blanks at their ends or neither is kept with a
title form. -/
theorem sameName_iff (t : Table W) {a b : String}
    (h : Session.fold a.toList = Session.fold b.toList) :
    t.SameName a b ↔
      trim a.toList = trim b.toList ∨ (¬KeepsTitle a ∧ ¬KeepsTitle b) := by
  rw [sameName_iff_key_eq, key_eq_key_iff h]

theorem sameName_initial_capitals :
    Session.fold " Γωνία".toList = Session.fold "ΓΩΝΊΑ\n".toList ∧
      (initial : Table Unit).SameName " Γωνία" "ΓΩΝΊΑ\n" := by
  have hfold : Session.fold " Γωνία".toList = Session.fold "ΓΩΝΊΑ\n".toList := by
    decide +kernel
  exact ⟨hfold, (sameName_iff initial hfold).mpr
    (.inr ⟨by decide +kernel, by decide +kernel⟩)⟩

/-- The ligature ǆ and its title form fold to the same text, but the table that has the
one does not have the other. -/
theorem exists_title_not_contained :
    Session.fold "ǆ".toList = Session.fold "ǅ".toList ∧
      ∃ t : Table Unit, initial.declare "ǆ" 1 = .ok t ∧
        t.contains "ǆ" = true ∧ t.contains "ǅ" = false := by
  have hfree : (initial : Table Unit).find? (key "ǆ") = none := by decide +kernel
  refine ⟨by decide +kernel, initial.add (key "ǆ") (.variable 1) hfree,
    insert_of_find?_eq_none hfree _, ?_, ?_⟩
  · simp [contains, get]
  · rw [contains, get, find?_add, if_neg (by decide +kernel)]
    decide +kernel

end Table
end RuleSheet
