import RuleSheet.Proofs.Session.Reachable
import RuleSheet.Proofs.Text.Lowering
import RuleSheet.Proofs.Token.Depth

/-!
# How names are spelled

A statement and a registration fold a name: it is trimmed and lowered as a whole. An
expression drops all blanks and lowers each character by itself. For a name that can be
declared the blanks make no difference, so an expression reads the folded name unless a
word of the spelling ends in a capital sigma.

The keyword is a folded name too. What stands after it on the left side of a statement
is folded apart from it, and no variable and no accessor is called like the keyword.
-/
namespace RuleSheet
open Text
variable {W : Type}

namespace Session

@[simp] theorem toList_folded (name : String) : (folded name).toList = fold name.toList :=
  String.toList_ofList

theorem trimmed_fold (cs : List Char) : Trimmed (fold cs) :=
  (trimmed_trim cs).lower

@[simp] theorem trim_fold (cs : List Char) : trim (fold cs) = fold cs :=
  trim_of_trimmed (trimmed_fold cs)

@[simp] theorem lower_fold (cs : List Char) : lower (fold cs) = fold cs :=
  lower_lower _

@[simp] theorem fold_fold (cs : List Char) : fold (fold cs) = fold cs := by
  rw [fold, trim_fold, lower_fold]

@[simp] theorem key_folded (name : String) : Table.key (folded name) = folded name := by
  simp [Table.key, folded]

@[simp] theorem folded_folded (name : String) : folded (folded name) = folded name := by
  simp [folded]

theorem fold_append_blanks (cs : List Char) {r : List Char} (hr : ∀ c ∈ r, isBlank c = true) :
    fold (cs ++ r) = fold cs :=
  congrArg lower (trim_between (l := []) (by simp) cs hr)

theorem fold_blanks_append {l : List Char} (hl : ∀ c ∈ l, isBlank c = true) (cs : List Char) :
    fold (l ++ cs) = fold cs := by
  have htrim := trim_between (r := []) hl cs (by simp)
  rw [List.append_nil] at htrim
  exact congrArg lower htrim

theorem fold_eq_nil_iff {cs : List Char} : fold cs = [] ↔ ∀ c ∈ cs, isBlank c = true := by
  rw [fold, ← trim_eq_nil_iff, lower, ← List.length_eq_zero_iff, length_lowerAfter,
    List.length_eq_zero_iff, lowerChars, List.flatMap_eq_nil_iff]
  constructor
  · intro h
    exact List.eq_nil_iff_forall_not_mem.mpr fun c hc => lowerChar_ne_nil c (h c hc)
  · intro h
    simp [h]

theorem fold_append {a b : List Char} {c : Char} (hc : isBlank c = true) (ha : fold a ≠ [])
    (hb : fold b ≠ []) : ∃ gap, gap ≠ [] ∧ (∀ d ∈ gap, isBlank d = true) ∧
      fold (a ++ c :: b) = fold a ++ gap ++ fold b := by
  rw [ne_eq, fold_eq_nil_iff, ← trim_eq_nil_iff] at ha hb
  obtain ⟨l, x, ha', hl, hx⟩ := exists_trim a
  obtain ⟨y, r, hb', hy, hr⟩ := exists_trim b
  have hgap : ∀ d ∈ x ++ c :: y, isBlank d = true := by
    intro d hd
    rcases List.mem_append.mp hd with hd | hd
    · exact hx d hd
    · rcases List.mem_cons.mp hd with rfl | hd
      · exact hc
      · exact hy d hd
  refine ⟨x ++ c :: y, by simp, hgap, ?_⟩
  have hsplit : a ++ c :: b = l ++ (trim a ++ (x ++ c :: y) ++ trim b) ++ r := by
    conv_lhs => rw [ha', hb']
    simp only [List.append_assoc, List.cons_append]
  have hmiddle : Trimmed (trim a ++ (x ++ c :: y) ++ trim b) := by
    constructor
    · rw [List.append_assoc, List.head?_append_of_ne_nil _ ha]
      exact (trimmed_trim a).first
    · rw [List.getLast?_append_of_ne_nil _ hb]
      exact (trimmed_trim b).last
  have hlower : lower (trim a ++ (x ++ c :: y) ++ trim b) =
      lower (trim a) ++ (x ++ c :: y) ++ lower (trim b) := by
    cases hwhole : x ++ c :: y with
    | nil => simp at hwhole
    | cons d more =>
        rw [hwhole] at hgap
        rw [List.append_assoc, List.cons_append, lower_append_blank (hgap d (.head _)),
          lower_blanks_append fun e he => hgap e (.tail _ he)]
        simp
  rw [hsplit, fold, trim_append hl hmiddle hr, hlower]
  rfl

/-! What an expression makes of a spelling. -/

/-- A word of the spelling ends in a capital sigma. -/
def EndsInSigma (name : String) : Prop :=
  SigmaEndsWord [] (trim name.toList)

/-- If the folded name can be declared, no blank stands inside the spelling. -/
theorem normalize_of_identifier {name : String} (h : Token.Identifier (folded name)) :
    Token.normalize name.toList = lowerChars (trim name.toList) := by
  have hvisible : ∀ c ∈ trim name.toList, isBlank c = false := by
    intro c hc
    rw [Bool.eq_false_iff]
    intro hb
    obtain ⟨a, b, hab⟩ := List.append_of_mem hc
    have hin : c ∈ (folded name).toList := by
      rw [toList_folded, fold, hab, lower_append_blank hb]
      simp
    rw [h.isBlank c hin] at hb
    cases hb
  rw [Token.normalize, dropBlanks_eq_trim hvisible]

theorem normalize_eq_folded {name : String} (h : Token.Identifier (folded name))
    (hsigma : ¬EndsInSigma name) : Token.normalize name.toList = (folded name).toList := by
  rw [normalize_of_identifier h, ← lowerAfter_eq_lowerChars_iff.mpr hsigma, toList_folded]
  rfl

/-- An expression reads the folded name, unless a word ends in a capital sigma. -/
theorem scan_eq_folded_iff {name : String} (h : Token.Identifier (folded name))
    (autoBalance : Bool) :
    Token.scan autoBalance name.toList = [.name (folded name)] ↔ ¬EndsInSigma name := by
  rw [Token.scan_eq_name_iff]
  refine ⟨fun hscan => ?_, fun hsigma => h.scan (normalize_eq_folded h hsigma)⟩
  obtain ⟨k, hk, -⟩ := Token.normalize_of_scan hscan
  rw [normalize_of_identifier h, toList_folded] at hk
  have hlength := congrArg List.length hk
  rw [List.length_append, List.length_replicate, fold, lower, length_lowerAfter] at hlength
  obtain rfl : k = 0 := by omega
  exact lowerAfter_eq_lowerChars_iff.mp hk.symm

/-! What a statement makes of its left side. -/

/-- A declaration is the keyword and then a blank. -/
theorem declaredName?_eq_some_iff {s : Session W} {target : List Char} {n : String} :
    s.declaredName? target = some n ↔ ∃ c rest,
      target = s.settings.declarationKeyword.toList ++ c :: rest ∧ isBlank c = true ∧
        n = String.ofList (trim (c :: rest)) := by
  unfold declaredName?
  dsimp only
  constructor
  · intro h
    split at h
    · rename_i hprefix
      obtain ⟨after, rfl⟩ := List.isPrefixOf_iff_prefix.mp hprefix
      rw [List.drop_left] at h
      cases after with
      | nil => cases h
      | cons c rest =>
          dsimp only at h
          split at h
          · rename_i hc
            exact ⟨c, rest, rfl, hc, (Option.some.inj h).symm⟩
          · cases h
    · cases h
  · rintro ⟨c, rest, rfl, hc, rfl⟩
    rw [if_pos (List.isPrefixOf_iff_prefix.mpr (List.prefix_append _ _)), List.drop_left]
    dsimp only
    rw [if_pos hc]

theorem declaredName?_of_append {s : Session W} {gap word : List Char} (hgap : gap ≠ [])
    (hblank : ∀ c ∈ gap, isBlank c = true) (hword : Trimmed word) :
    s.declaredName? (s.settings.declarationKeyword.toList ++ gap ++ word) =
      some (String.ofList word) := by
  cases gap with
  | nil => exact absurd rfl hgap
  | cons c rest =>
      have htrim := trim_append (r := []) hblank hword (by simp)
      rw [List.append_nil] at htrim
      exact declaredName?_eq_some_iff.mpr ⟨c, rest ++ word, by simp, hblank c (.head _),
        congrArg String.ofList htrim.symm⟩

@[simp] theorem declaredName?_keyword (s : Session W) :
    s.declaredName? s.settings.declarationKeyword.toList = none := by
  refine Option.eq_none_iff_forall_ne_some.mpr fun n hn => ?_
  obtain ⟨c, rest, heq, -⟩ := declaredName?_eq_some_iff.mp hn
  exact List.cons_ne_nil c rest (List.self_eq_append_right.mp heq)

theorem declaredName?_of_empty {s : Session W} (hs : s.settings.declarationKeyword = "")
    (cs : List Char) : s.declaredName? (fold cs) = none := by
  refine Option.eq_none_iff_forall_ne_some.mpr fun n hn => ?_
  obtain ⟨c, rest, heq, hc, -⟩ := declaredName?_eq_some_iff.mp hn
  have hfirst := (trimmed_fold cs).first
  rw [heq, hs] at hfirst
  rw [hfirst c rfl] at hc
  cases hc

/-- What is spelled after the keyword is declared. Nothing is declared if one of the two is
blank. -/
theorem declaredName?_spelled {s : Session W} {keyword name : List Char} {c : Char}
    (hkeyword : fold keyword = s.settings.declarationKeyword.toList) (hc : isBlank c = true) :
    s.declaredName? (fold (keyword ++ c :: name)) =
      if s.settings.declarationKeyword = "" ∨ fold name = [] then none
      else some (String.ofList (fold name)) := by
  split
  · rename_i hblank
    rcases hblank with hempty | hname
    · exact declaredName?_of_empty hempty _
    · have hrest : ∀ d ∈ c :: name, isBlank d = true := by
        simpa [hc] using fold_eq_nil_iff.mp hname
      rw [fold_append_blanks _ hrest, hkeyword]
      exact declaredName?_keyword s
  · rename_i hnot
    rw [not_or] at hnot
    have hword : fold keyword ≠ [] := by
      rw [hkeyword, ne_eq, String.toList_eq_nil_iff]
      exact hnot.1
    obtain ⟨gap, hgap, hblank, hleft⟩ := fold_append hc hword hnot.2
    rw [hleft, hkeyword, declaredName?_of_append hgap hblank (trimmed_fold _)]

theorem declaredName?_of_identifier {s : Session W} {n : String} (hn : Token.Identifier n) :
    s.declaredName? n.toList = none := by
  refine Option.eq_none_iff_forall_ne_some.mpr fun new hnew => ?_
  obtain ⟨c, rest, heq, hc, -⟩ := declaredName?_eq_some_iff.mp hnew
  rw [hn.isBlank c (by simp [heq])] at hc
  cases hc

/-- A left side that passes its checks is the declaration that it is written as, and
otherwise the symbol that it spells. -/
theorem eq_of_target {s : Session W} {left : List Char} {target : Target}
    (h : s.target left = .ok target) :
    target = match s.declaredName? (fold left) with
      | some new => .declaration new
      | none => .symbol (String.ofList (fold left)) := by
  rcases target_cases h with ⟨new, hnew, rfl, _⟩ | ⟨_, hnone, rfl, _⟩
  · rw [hnew]
  · rw [hnone]

/-- The symbol called like the keyword, if there is one, is a constant. -/
def Unbound (t : Table W) (keyword : String) : Prop :=
  ∀ symbol, t.find? keyword = some symbol → ∃ x, symbol = .constant x

theorem Change.unbound {s : Session W} {t : Table W} (h : s.Change t)
    (hs : Unbound s.table s.settings.declarationKeyword) :
    Unbound t s.settings.declarationKeyword := by
  intro symbol hsymbol
  rw [Table.find?_eq_some_iff] at hsymbol
  cases h with
  | same => exact hs symbol (Table.find?_eq_some_iff.mpr hsymbol)
  | added hname _ ht =>
      rw [ht, List.mem_append, List.mem_singleton] at hsymbol
      rcases hsymbol with hold | hnew
      · exact hs symbol (Table.find?_eq_some_iff.mpr hold)
      · exfalso
        have hkey := (Prod.mk.inj hnew).1
        rw [(isIdentifier_of_checkNewName hname).key] at hkey
        have hunreserved := (checkNewName_eq_ok_iff.mp hname).1
        simp [hkey] at hunreserved
  | @replaced t k x y hk ht =>
      rw [← Table.find?_eq_some_iff] at hsymbol
      by_cases hkey : s.settings.declarationKeyword = k
      · obtain ⟨z, hz⟩ := hs _ (hkey ▸ hk)
        cases hz
      · rw [ht.others _ hkey] at hsymbol
        exact hs symbol hsymbol
  | kept _ =>
      exact hs symbol (Table.find?_eq_some_iff.mpr (List.mem_filter.mp hsymbol).1)

theorem Reachable.unbound {s : Session W} (h : s.Reachable) :
    Unbound s.table s.settings.declarationKeyword := by
  induction h with
  | create settings =>
      intro symbol hsymbol
      have hmem := Table.find?_eq_some_iff.mp hsymbol
      obtain ⟨⟨name, x⟩, _, heq⟩ := List.mem_map.mp hmem
      exact ⟨x, (Prod.mk.inj heq).2.symm⟩
  | call c h _ ih =>
      rw [(change_answer _ c h).2]
      exact (change_answer _ c h).1.unbound ih

theorem Reachable.folded_keyword {s : Session W} (h : s.Reachable) :
    folded s.settings.declarationKeyword = s.settings.declarationKeyword := by
  induction h with
  | create settings => exact folded_folded settings.declarationKeyword
  | call c h _ ih => rw [(change_answer _ c h).2, ih]

theorem fold_ne_keyword {s : Session W} (hs : s.Reachable) {left : List Char} {target : Target}
    (ht : s.target left = .ok target) : fold left ≠ s.settings.declarationKeyword.toList := by
  intro hleft
  have heq := eq_of_target ht
  rw [hleft, declaredName?_keyword, String.ofList_toList] at heq
  subst heq
  have hkey : Table.key s.settings.declarationKeyword = s.settings.declarationKeyword := by
    rw [← hs.folded_keyword, key_folded]
  rcases (writable_of_target ht : (∃ x, _) ∨ ∃ a, _) with ⟨x, hx⟩ | ⟨a, ha⟩
  · rw [hkey] at hx
    obtain ⟨y, hy⟩ := hs.unbound _ hx
    cases hy
  · rw [hkey] at ha
    obtain ⟨y, hy⟩ := hs.unbound _ ha
    cases hy

/-- What is spelled after the keyword is declared. With a blank keyword there are no
declarations, and it is a symbol. -/
theorem target_keyword {s : Session W} (hs : s.Reachable) {keyword rest : List Char}
    (hkeyword : fold keyword = s.settings.declarationKeyword.toList) {target : Target}
    (ht : s.target (keyword ++ ' ' :: rest) = .ok target) :
    target = if s.settings.declarationKeyword = "" then .symbol (String.ofList (fold rest))
      else .declaration (String.ofList (fold rest)) := by
  have heq := eq_of_target ht
  have hspace : fold (' ' :: rest) = fold rest :=
    fold_blanks_append (l := [' ']) (List.forall_mem_singleton.mpr (by decide)) rest
  rw [declaredName?_spelled hkeyword (by decide)] at heq
  by_cases hempty : s.settings.declarationKeyword = ""
  · have hblank : fold keyword = [] := by
      rw [hkeyword, hempty]
      rfl
    rw [if_pos (.inl hempty), fold_blanks_append (fold_eq_nil_iff.mp hblank), hspace] at heq
    rw [heq, if_pos hempty]
  · have hrest : fold rest ≠ [] := by
      intro hrest
      have halone : fold (keyword ++ ' ' :: rest) = fold keyword :=
        fold_append_blanks _ (fold_eq_nil_iff.mp (hspace.trans hrest))
      exact fold_ne_keyword hs ht (halone.trans hkeyword)
    rw [if_neg (not_or.mpr ⟨hempty, hrest⟩)] at heq
    rw [heq, if_neg hempty]

end Session
end RuleSheet
