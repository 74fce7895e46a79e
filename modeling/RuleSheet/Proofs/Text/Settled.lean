import RuleSheet.Text.Blank
import RuleSheet.Text.Letter
import RuleSheet.Text.Lower

/-!
# Settled characters

A character is settled when lowering leaves it as it is. A text that lowering leaves
as it is consists of settled characters, and both ways to lower then agree on it.
Lowering makes no digits and no punctuation out of other characters.

What the tables say about single stretches is decided here once, and only its
consequences for characters are used elsewhere.
-/
namespace RuleSheet.Text

theorem Stretch.has_iff {s : Stretch} {n : Nat} :
    s.has n = true ↔ s.first ≤ n ∧ n ≤ s.last ∧ (n - s.first) % s.step = 0 := by
  simp [has, and_assoc]

theorem Stretch.mem_members {s : Stretch} {n : Nat} (h : s.has n = true) : n ∈ s.members := by
  obtain ⟨hfirst, hlast, hstep⟩ := has_iff.mp h
  have hn : n - s.first = (n - s.first) / s.step * s.step := by
    rw [Nat.div_mul_cancel (Nat.dvd_of_mod_eq_zero hstep)]
  rw [members, List.mem_map]
  refine ⟨(n - s.first) / s.step, ?_, ?_⟩
  · rw [List.mem_range, Nat.lt_succ_iff]
    exact Nat.div_le_div_right (by omega)
  · omega

theorem of_isBlank {p : Char → Prop}
    (h : ∀ n ∈ blankStretches.flatMap Stretch.members, p (Char.ofNat n)) {c : Char}
    (hc : isBlank c = true) : p c := by
  obtain ⟨s, hs, hn⟩ := Stretch.has_of_covers hc
  have hp := h c.toNat (List.mem_flatMap.mpr ⟨s, hs, Stretch.mem_members hn⟩)
  rwa [Char.ofNat_toNat] at hp

/-- A small form is the code point itself, or what a stretch makes of a code point on it. -/
theorem lowerCode_eq_or {p : Nat → Prop} {shifts : List (Stretch × Int)}
    (h : ∀ e ∈ shifts, ∀ n, e.1.has n = true → p ((n : Int) + e.2).toNat) (n : Nat) :
    lowerCode shifts n = n ∨ p (lowerCode shifts n) := by
  induction shifts with
  | nil => exact .inl rfl
  | cons e rest ih =>
      obtain ⟨s, shift⟩ := e
      rw [lowerCode]
      split
      · exact .inl rfl
      · split
        · split
          · rename_i hn
            exact .inr (h (s, shift) (.head _) n hn)
          · exact .inl rfl
        · exact ih fun e he => h e (.tail _ he)

/-- A small form is not before the least one, unless it is the code point itself. -/
theorem lowerCode_eq_or_le {least : Nat} {shifts : List (Stretch × Int)}
    (hleast : ∀ e ∈ shifts, (least : Int) ≤ e.1.first + e.2) (n : Nat) :
    lowerCode shifts n = n ∨ least ≤ lowerCode shifts n := by
  refine lowerCode_eq_or (fun e he m hm => ?_) n
  have hbound := hleast e he
  have hfirst := (Stretch.has_iff.mp hm).1
  omega

/-- Lowering makes no visible character that is before the small letters. -/
theorem mem_of_mem_lowerChars {c : Char} {cs : List Char} (hpos : 0 < c.toNat)
    (hc : c.toNat < 'a'.toNat) (h : c ∈ lowerChars cs) : c ∈ cs := by
  obtain ⟨d, hd, hcd⟩ := List.mem_flatMap.mp h
  unfold lowerChar at hcd
  split at hcd
  · rw [List.mem_cons, List.mem_singleton] at hcd
    rcases hcd with rfl | rfl
    · exact absurd hc (by decide)
    · exact absurd hc (by decide)
  · rw [List.mem_singleton] at hcd
    have hleast : ∀ e ∈ lowerShifts, (('a'.toNat : Nat) : Int) ≤ e.1.first + e.2 := by
      decide +kernel
    rcases lowerCode_eq_or_le hleast d.toNat with hn | hn
    · rw [hn, Char.ofNat_toNat] at hcd
      rwa [hcd]
    · exfalso
      by_cases hv : (lowerCode lowerShifts d.toNat).isValidChar
      · rw [hcd, Char.ofNat, dif_pos hv] at hc
        change lowerCode lowerShifts d.toNat < _ at hc
        omega
      · rw [hcd, Char.ofNat, dif_neg hv] at hpos
        exact absurd hpos (by decide)

/-- The character is its own small form. -/
def IsSettled (c : Char) : Prop :=
  lowerChar c = [c]

instance : DecidablePred IsSettled := fun c =>
  inferInstanceAs (Decidable (lowerChar c = [c]))

/-! A small form is settled, since the stretches of the small forms are apart from those
of the capitals. -/

namespace Stretch

/-- No code point lies on both stretches: one ends before the other begins, or they take
turns. -/
def apart (s t : Stretch) : Bool :=
  Nat.blt s.last t.first || Nat.blt t.last s.first ||
    ((s.step == 2 || s.first == s.last) && t.step == 2 && (s.first + t.first) % 2 == 1)

theorem has_of_apart {s t : Stretch} {n : Nat} (h : s.apart t = true) (hs : s.has n = true) :
    t.has n = false := by
  rw [Bool.eq_false_iff]
  intro ht
  rw [has_iff] at hs ht
  simp only [apart, Bool.or_eq_true, Bool.and_eq_true, Nat.blt_eq, beq_iff_eq] at h
  rcases h with (h | h) | ⟨⟨hstep | hone, hstep'⟩, hodd⟩
  · omega
  · omega
  · rw [hstep] at hs
    rw [hstep'] at ht
    omega
  · rw [hstep'] at ht
    omega

/-- The stretch with each of its code points moved. -/
def moved (s : Stretch) (shift : Int) : Stretch :=
  ⟨((s.first : Int) + shift).toNat, ((s.last : Int) + shift).toNat, s.step⟩

theorem has_moved {s : Stretch} {shift : Int} (h : 0 ≤ (s.first : Int) + shift) {n : Nat}
    (hn : s.has n = true) : (s.moved shift).has ((n : Int) + shift).toNat = true := by
  rw [has_iff] at hn ⊢
  have hdiff : ((n : Int) + shift).toNat - (s.moved shift).first = n - s.first := by
    change ((n : Int) + shift).toNat - ((s.first : Int) + shift).toNat = n - s.first
    omega
  rw [hdiff]
  refine ⟨?_, ?_, hn.2.2⟩
  · exact Int.toNat_le_toNat (by omega)
  · exact Int.toNat_le_toNat (by omega)

/-- The stretches of an ascending list that do not end before the code point. -/
def notBefore (m : Nat) (table : List Stretch) : List Stretch :=
  table.dropWhile fun s => Nat.ble s.first m && Nat.blt s.last m

theorem covers_notBefore {m n : Nat} (h : m ≤ n) (table : List Stretch) :
    covers (notBefore m table) n = covers table n := by
  induction table with
  | nil => rfl
  | cons s rest ih =>
      rw [notBefore, List.dropWhile_cons, ← notBefore]
      split
      · rename_i hs
        rw [Bool.and_eq_true, Nat.ble_eq, Nat.blt_eq] at hs
        rw [ih, covers, if_neg (by omega), if_neg (by omega)]
      · rfl

/-- Every code point of the stretch lies on the other one, which leaves none out. -/
def within (s t : Stretch) : Bool :=
  Nat.ble t.first s.first && Nat.ble s.last t.last && t.step == 1

theorem has_of_within {s t : Stretch} {n : Nat} (h : s.within t = true) (hs : s.has n = true) :
    t.has n = true := by
  simp only [within, Bool.and_eq_true, Nat.ble_eq, beq_iff_eq] at h
  rw [has_iff] at hs ⊢
  rw [h.2, Nat.mod_one]
  omega

/-- The first stretch that does not end before the code points is one that they lie on. -/
theorem covers_of_within {s : Stretch} {table : List Stretch} {n : Nat}
    (h : ((notBefore s.first table).head?.any s.within) = true) (hs : s.has n = true) :
    covers table n = true := by
  rw [← covers_notBefore (has_iff.mp hs).1]
  cases ht : notBefore s.first table with
  | nil =>
      rw [ht] at h
      cases h
  | cons t rest =>
      rw [ht] at h
      have hn := has_of_within h hs
      obtain ⟨hfirst, hlast, -⟩ := has_iff.mp hn
      rw [covers, if_neg (by omega), if_pos hlast]
      exact hn

end Stretch

/-- The search for a small form leaves every code point of a stretch as it is. -/
def untouched : List (Stretch × Int) → Stretch → Bool
  | [], _ => true
  | (d, _) :: rest, s => Nat.blt s.last d.first || (s.apart d && untouched rest s)

theorem lowerCode_of_untouched {shifts : List (Stretch × Int)} {s : Stretch} {n : Nat}
    (h : untouched shifts s = true) (hn : s.has n = true) : lowerCode shifts n = n := by
  induction shifts with
  | nil => rfl
  | cons e rest ih =>
      obtain ⟨d, shift⟩ := e
      rw [untouched, Bool.or_eq_true, Bool.and_eq_true, Nat.blt_eq] at h
      rw [lowerCode]
      rcases h with hbefore | ⟨hapart, hrest⟩
      · have hlast := (Stretch.has_iff.mp hn).2.1
        rw [if_pos (by omega)]
      · rw [Stretch.has_of_apart hapart hn, ih hrest]
        simp

/-- A code point that is not its own small form has one that is, and not the dotted I. -/
theorem lowerCode_lowerCode (n : Nat) : lowerCode lowerShifts n = n ∨
    lowerCode lowerShifts (lowerCode lowerShifts n) = lowerCode lowerShifts n ∧
      lowerCode lowerShifts n ≠ dottedCapitalI.toNat := by
  have hmoved : ∀ e ∈ lowerShifts, 0 ≤ (e.1.first : Int) + e.2 ∧
      untouched lowerShifts (e.1.moved e.2) = true ∧
      (e.1.moved e.2).has dottedCapitalI.toNat = false := by
    decide +kernel
  refine lowerCode_eq_or
    (p := fun m => lowerCode lowerShifts m = m ∧ m ≠ dottedCapitalI.toNat) (fun e he m hm => ?_) n
  obtain ⟨hpos, huntouched, hnot⟩ := hmoved e he
  have hhas := Stretch.has_moved hpos hm
  refine ⟨lowerCode_of_untouched huntouched hhas, fun heq => ?_⟩
  rw [heq, hnot] at hhas
  cases hhas

theorem covers_lowerCode (n : Nat) : lowerCode lowerShifts n = n ∨
    (lowerCode lowerShifts n).isValidChar ∧
      Stretch.covers letterStretches (lowerCode lowerShifts n) = true := by
  have hmoved : ∀ e ∈ lowerShifts, 0 ≤ (e.1.first : Int) + e.2 ∧
      (Nat.blt (e.1.moved e.2).last 0xd800 = true ∨
        Nat.blt 0xdfff (e.1.moved e.2).first = true ∧
          Nat.blt (e.1.moved e.2).last 0x110000 = true) ∧
      (Stretch.notBefore (e.1.moved e.2).first letterStretches).head?.any
        (e.1.moved e.2).within = true := by
    decide +kernel
  refine lowerCode_eq_or (p := fun m => m.isValidChar ∧ Stretch.covers letterStretches m = true)
    (fun e he m hm => ?_) n
  obtain ⟨hpos, hplain, hwithin⟩ := hmoved e he
  have hhas := Stretch.has_moved hpos hm
  obtain ⟨hfirst, hlast, -⟩ := Stretch.has_iff.mp hhas
  refine ⟨?_, Stretch.covers_of_within hwithin hhas⟩
  rw [Nat.blt_eq, Nat.blt_eq, Nat.blt_eq] at hplain
  rcases hplain with hbelow | ⟨habove, hbound⟩
  · exact .inl (by omega)
  · exact .inr (by omega)

theorem exists_lowerChar_of_isLetter {c : Char} (hc : isLetter c = true) :
    ∃ d more, lowerChar c = d :: more ∧ isLetter d = true := by
  rw [lowerChar]
  split
  · exact ⟨'i', _, rfl, by decide +kernel⟩
  · refine ⟨_, [], rfl, ?_⟩
    rcases covers_lowerCode c.toNat with hsame | ⟨hvalid, hletter⟩
    · rwa [hsame, Char.ofNat_toNat]
    · rw [Char.ofNat, dif_pos hvalid]
      exact hletter

theorem isSettled_of_mem_lowerChar {c d : Char} (hd : d ∈ lowerChar c) : IsSettled d := by
  unfold lowerChar at hd
  split at hd
  · have hletters : ∀ d ∈ ['i', combiningDotAbove], IsSettled d :=
      List.forall_mem_cons.mpr
        ⟨by decide +kernel, List.forall_mem_singleton.mpr (by decide +kernel)⟩
    exact hletters d hd
  · rename_i hdotted
    obtain rfl := List.mem_singleton.mp hd
    rcases lowerCode_lowerCode c.toNat with hcode | ⟨hself, hne⟩
    · rw [hcode, Char.ofNat_toNat, IsSettled, lowerChar, if_neg hdotted, hcode,
        Char.ofNat_toNat]
    · generalize lowerCode lowerShifts c.toNat = n at hself hne
      by_cases hv : n.isValidChar
      · have hn : (Char.ofNat n).toNat = n := by
          rw [Char.ofNat, dif_pos hv]
          rfl
        rw [IsSettled, lowerChar, if_neg fun h => hne (hn.symm.trans (congrArg Char.toNat h)),
          hn, hself]
      · rw [Char.ofNat, dif_neg hv]
        decide +kernel

theorem lowerChars_eq_self {cs : List Char} (h : ∀ c ∈ cs, IsSettled c) :
    lowerChars cs = cs := by
  induction cs with
  | nil => rfl
  | cons c rest ih =>
      have hc : lowerChar c = [c] := h c (by simp)
      have hr := ih fun d hd => h d (by simp [hd])
      rw [lowerChars, List.flatMap_cons, hc]
      exact congrArg (c :: ·) hr

/-- A text that is its own small form has only settled characters. -/
theorem isSettled_of_lowerChars_eq {cs : List Char} (h : lowerChars cs = cs) :
    ∀ c ∈ cs, IsSettled c := by
  induction cs with
  | nil => simp
  | cons c rest ih =>
      have hone : lowerChar c = [c] ∧ lowerChars rest = rest := by
        rw [lowerChars, List.flatMap_cons] at h
        unfold lowerChar at h ⊢
        split at h
        · rename_i hdot
          obtain ⟨hi, _⟩ := List.cons.inj h
          exact absurd (hi.trans hdot) (by decide)
        · rename_i hdot
          obtain ⟨hc, hr⟩ := List.cons.inj h
          rw [if_neg hdot, hc]
          exact ⟨rfl, hr⟩
      intro d hd
      rcases List.mem_cons.mp hd with rfl | hd
      · exact hone.1
      · exact ih hone.2 d hd

/-- Lowering as a whole leaves settled characters as they are, since a capital sigma is
not settled. -/
theorem lower_eq_self {cs : List Char} (h : ∀ c ∈ cs, IsSettled c) : lower cs = cs := by
  have hsigma : capitalSigma ∉ cs := by
    intro hs
    exact absurd (h _ hs) (by decide)
  rw [lower, lowerAfter_eq_lowerChars hsigma, lowerChars_eq_self h]

theorem toLower_of_le {c : Char} (h : 128 ≤ c.toNat) : c.toLower = c := by
  unfold Char.toLower
  rw [dif_neg]
  intro hboth
  rcases hboth with ⟨_, hle⟩
  have hnat : c.toNat ≤ 90 := hle
  omega

theorem of_toNat_lt {p : Char → Prop} {bound : Nat} (h : ∀ n < bound, p (Char.ofNat n))
    {c : Char} (hc : c.toNat < bound) : p c := by
  have hp := h c.toNat hc
  rwa [Char.ofNat_toNat] at hp

theorem lowerChar_of_lt {c : Char} (h : c.toNat < 128) : lowerChar c = [c.toLower] :=
  of_toNat_lt (p := fun c => lowerChar c = [c.toLower]) (by decide +kernel) h

/-- A character that differs from a settled one at most in case lowers to it. -/
theorem lowerChar_of_toLower_eq {c d : Char} (hd : IsSettled d) (h : c.toLower = d.toLower) :
    lowerChar c = [d] := by
  have hself : d.toLower = d := by
    by_cases hlt : d.toNat < 128
    · exact List.singleton_inj.mp ((lowerChar_of_lt hlt).symm.trans hd)
    · exact toLower_of_le (by omega)
  rw [hself] at h
  by_cases hlt : c.toNat < 128
  · rw [lowerChar_of_lt hlt, h]
  · rw [toLower_of_le (by omega)] at h
    rw [h]
    exact hd

theorem lowerChars_of_map_toLower {cs ds : List Char} (hd : ∀ d ∈ ds, IsSettled d)
    (h : cs.map Char.toLower = ds.map Char.toLower) : lowerChars cs = ds := by
  induction ds generalizing cs with
  | nil =>
      obtain rfl : cs = [] := by simpa using h
      rfl
  | cons d rest ih =>
      cases cs with
      | nil => cases h
      | cons c more =>
          obtain ⟨hc, hmore⟩ := List.cons.inj h
          rw [lowerChars, List.flatMap_cons, lowerChar_of_toLower_eq (hd d (by simp)) hc]
          exact congrArg (d :: ·) (ih (fun e he => hd e (by simp [he])) hmore)

theorem dropBlanks_eq_self {cs : List Char} (h : ∀ c ∈ cs, isBlank c = false) :
    dropBlanks cs = cs := by
  rw [dropBlanks, List.filter_eq_self]
  intro c hc
  simp [h c hc]

theorem dropWhile_isBlank_eq_self {cs : List Char} (h : ∀ c ∈ cs, isBlank c = false) :
    cs.dropWhile isBlank = cs := by
  cases cs with
  | nil => rfl
  | cons c rest => rw [List.dropWhile_cons, h c (by simp)]; rfl

theorem trim_eq_self {cs : List Char} (h : ∀ c ∈ cs, isBlank c = false) : trim cs = cs := by
  rw [trim, trimLeft, dropWhile_isBlank_eq_self h, trimRight,
    dropWhile_isBlank_eq_self (by simpa using h), List.reverse_reverse]

end RuleSheet.Text
