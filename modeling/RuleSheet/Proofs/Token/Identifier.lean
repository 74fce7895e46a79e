import RuleSheet.Proofs.Text.Settled
import RuleSheet.Proofs.Token.Lexeme
import RuleSheet.Proofs.Token.Turn

/-!
# The names that read back as themselves

A text is an identifier when its tokens are one name token with that very text. Such
a text begins with a name character, is one lexeme from end to end, is settled, and is
not the name of a function; and these four conditions are enough. The scanner drops
plus signs in front of an operand, but a text that begins with one is not an
identifier, since no name has a plus sign in it.
-/
namespace RuleSheet
open Text

namespace Scan

/-- Once something has been read that is no sign, every further lexeme leaves a token. -/
theorem Turn.grows {s s' : Scan} {after taken : List Char} (h : Turn s after taken s')
    (he : s.expectsOperand = false) : s.tokens.length < s'.tokens.length := by
  have push_lt {a b : Scan} {t : Token} (hab : a.tokens <:+ b.tokens) :
      a.tokens.length < (b.push t).tokens.length :=
    Nat.lt_succ_of_le hab.length_le
  cases h with
  | numeral text =>
      exact (push_lt (suffix_operandStart s true)).trans_le (suffix_settle _ _ _).length_le
  | symbol =>
      exact (push_lt (suffix_operandStart s false)).trans_le (suffix_settle _ _ _).length_le
  | call => exact push_lt (suffix_operandStart s false)
  | capture =>
      exact (push_lt (suffix_operandStart s false)).trans (Nat.lt_succ_self _)
  | opening => exact Nat.lt_succ_of_le (suffix_operandStart s false).length_le
  | closing => exact Nat.lt_of_succ_le (suffix_settle (.closing :: s.tokens) _ _).length_le
  | negation hn => rw [he] at hn; cases hn
  | negationOfNothing hn => rw [he] at hn; cases hn
  | plus hn => rw [he] at hn; cases hn
  | operator => exact Nat.lt_succ_self _
  | stray => exact Nat.lt_succ_self _

theorem eq_nil_of_tokens_run {s : Scan} {cs : List Char} {n : String}
    (hs : s.tokens = [.name n]) (h : (s.run cs).tokens = [.name n]) : cs = [] := by
  cases cs with
  | nil => rfl
  | cons c rest =>
      exfalso
      obtain ⟨_, _, hturn⟩ := turns_step s c rest
      have hgrow := hturn.grows (by simp [expectsOperand, hs])
      have hle := (suffix_run (s.step c rest).1 (s.step c rest).2).length_le
      rw [run_cons] at h
      rw [h] at hle
      rw [hs] at hgrow
      simp at hle hgrow
      omega

theorem exists_number_mem_minus (rest : List Char) :
    ∃ text, .number text ∈ (start.minus rest).1.tokens := by
  unfold minus
  dsimp only
  split
  · exact ⟨"-1", .tail _ (.head _)⟩
  · split
    · exact ⟨_, .head _⟩
    · split
      · exact ⟨"-1", .tail _ (.head _)⟩
      · exact ⟨"-1", .tail _ (.head _)⟩

theorem eq_of_tokens_run_name {c : Char} {rest : List Char} {n : String}
    (h : ((start.name (c :: rest)).1.run (start.name (c :: rest)).2).tokens = [.name n]) :
    c :: rest = n.toList ∧ Lexeme.nameBody n.toList = (n.toList, []) ∧
      Builtin.isName n = false := by
  have hsub := suffix_run (start.name (c :: rest)).1 (start.name (c :: rest)).2
  have happend := Lexeme.name_append (c :: rest)
  rcases hl : Lexeme.name (c :: rest) with ⟨w, after⟩
  rw [hl] at happend
  by_cases hb : Builtin.isName (String.ofList w) = true
  · exfalso
    unfold name at h hsub
    rw [hl] at h hsub
    dsimp only at h hsub
    rw [if_pos hb] at h hsub
    dsimp only at h hsub
    split at h
    · rename_i ha
      have hnil := eq_nil_of_tokens_run (n := String.ofList w) rfl (h.trans ?_)
      · rw [hnil] at ha
        cases ha
      · rw [if_pos ha, h] at hsub
        exact (hsub.eq_of_length rfl).symm
    · rename_i ha
      rw [if_neg ha, h] at hsub
      have hle := hsub.length_le
      change 2 ≤ 1 at hle
      omega
  · have hrun : start.name (c :: rest) = (⟨[.name (String.ofList w)], 0, []⟩, after) := by
      unfold name
      rw [hl]
      dsimp only
      rw [if_neg hb]
      rfl
    rw [hrun] at h hsub
    rw [h] at hsub
    obtain rfl : String.ofList w = n := by simpa using hsub.eq_of_length rfl
    obtain rfl : after = [] := eq_nil_of_tokens_run rfl h
    have hbody := Lexeme.nameBody_of_name hl (Bool.eq_false_iff.mpr hb)
    rw [List.append_nil] at happend
    subst happend
    rw [String.toList_ofList]
    exact ⟨rfl, hbody, Bool.eq_false_iff.mpr hb⟩

theorem step_plus (rest : List Char) : start.step '+' rest = (start, rest) := by
  rw [step, if_neg (by decide), if_neg (by decide +kernel)]
  rfl

/-- A first character that begins no name leaves a token, unless it is a plus sign. -/
theorem eq_plus_of_step {c : Char} {rest : List Char} {n : String}
    (hname : ¬Lexeme.isNameChar c = true)
    (h : ∀ t ∈ (start.step c rest).1.tokens, t = .name n) : c = '+' := by
  unfold step at h
  rw [if_neg hname] at h
  split at h
  · cases h (.number (String.ofList (Lexeme.numeral (c :: rest)).1)) (.head _)
  split at h
  · cases h .opening (.head _)
  split at h
  · cases h .closing (.head _)
  split at h
  · rename_i op hop
    unfold operator at h
    split at h
    · obtain ⟨text, ht⟩ := exists_number_mem_minus rest
      cases h _ ht
    split at h
    · rename_i hadd
      obtain rfl : op = .add := by simpa [expectsOperand, start] using hadd
      exact eq_plus_of_ofChar? hop
    · cases h (.operator op) (.head _)
  · cases h (.stray c) (.head _)

/-- A text whose only token is a name is that name after signs that were dropped. -/
theorem eq_replicate_of_tokens_run {cs : List Char} {n : String}
    (h : (start.run cs).tokens = [.name n]) :
    ∃ k, cs = List.replicate k '+' ++ n.toList ∧ Lexeme.startsName n.toList = true ∧
      Lexeme.nameBody n.toList = (n.toList, []) ∧ Builtin.isName n = false := by
  induction cs with
  | nil =>
      rw [run_nil] at h
      cases h
  | cons c rest ih =>
      rw [run_cons] at h
      by_cases hname : Lexeme.isNameChar c = true
      · rw [step_name hname] at h
        obtain ⟨hn, hbody, hbuiltin⟩ := eq_of_tokens_run_name h
        exact ⟨0, hn, by rw [← hn]; exact hname, hbody, hbuiltin⟩
      · have hsub := suffix_run (start.step c rest).1 (start.step c rest).2
        rw [h] at hsub
        have hplus : c = '+' := by
          apply eq_plus_of_step hname
          intro t ht
          simpa using hsub.subset ht
        subst hplus
        rw [step_plus] at h
        obtain ⟨k, hk, hn⟩ := ih h
        refine ⟨k + 1, ?_, hn⟩
        rw [hk]
        rfl

end Scan

namespace Token

/-- What makes a text a name that reads back as itself. -/
structure Identifier (n : String) : Prop where
  starts : Lexeme.startsName n.toList = true
  whole : Lexeme.nameBody n.toList = (n.toList, [])
  settled : ∀ c ∈ n.toList, IsSettled c
  unreserved : Builtin.isName n = false

theorem Identifier.isBlank {n : String} (h : Identifier n) : ∀ c ∈ n.toList, isBlank c = false :=
  fun c hc => Lexeme.isBlank_of_isNamePart (Lexeme.isNamePart_of_isName h.whole c hc)

theorem Identifier.not_mem {n : String} (h : Identifier n) {c : Char}
    (hc : Lexeme.isNamePart c = false) : c ∉ n.toList := by
  intro hmem
  rw [Lexeme.isNamePart_of_isName h.whole c hmem] at hc
  cases hc

theorem Identifier.normalize {n : String} (h : Identifier n) :
    normalize n.toList = n.toList := by
  rw [Token.normalize, dropBlanks_eq_self h.isBlank, lowerChars_eq_self h.settled]

/-- An identifier is one lexeme wherever it stands. -/
theorem Identifier.run {n : String} (h : Identifier n) (s : Scan) {rest : List Char}
    (hrest : Lexeme.EndsName rest) :
    s.run (n.toList ++ rest) = (((s.operandStart false).push (.name n)).operandEnd).run rest :=
  Scan.run_symbol h.unreserved ⟨h.starts, Lexeme.name_append_right h.whole hrest⟩ s

theorem normalize_of_scan {cs : List Char} {n : String} (h : scan false cs = [.name n]) :
    ∃ k, normalize cs = List.replicate k '+' ++ n.toList ∧ Lexeme.startsName n.toList = true ∧
      Lexeme.nameBody n.toList = (n.toList, []) ∧ Builtin.isName n = false := by
  refine Scan.eq_replicate_of_tokens_run ?_
  have hall := congrArg List.reverse h
  change (List.reverse (List.reverse _)) = _ at hall
  rw [List.reverse_reverse] at hall
  generalize Scan.start.run (Token.normalize cs) = s at hall
  change List.replicate s.closers.length .closing ++ s.tokens = _ at hall
  cases hk : s.closers.length with
  | zero =>
      rw [hk] at hall
      exact hall
  | succ k =>
      rw [hk] at hall
      cases (List.cons.inj hall).1

theorem Identifier.scan {n : String} (h : Identifier n) {cs : List Char}
    (hcs : Token.normalize cs = n.toList) : scan false cs = [.name n] := by
  have hends : Lexeme.EndsName [] := by
    intro c hc
    cases hc
  have hrun := h.run Scan.start hends
  rw [List.append_nil, Scan.run_nil] at hrun
  rw [Token.scan, hcs, ofNormal, hrun]
  rfl

theorem isIdentifier_iff {n : String} : isIdentifier n = true ↔ Identifier n := by
  rw [isIdentifier, beq_iff_eq]
  constructor
  · intro h
    obtain ⟨k, hk, hstarts, hwhole, hbuiltin⟩ := normalize_of_scan h
    have hparts := Lexeme.isNamePart_of_isName hwhole
    have hblank : ∀ c ∈ n.toList, Text.isBlank c = false :=
      fun c hc => Lexeme.isBlank_of_isNamePart (hparts c hc)
    rw [Token.normalize, dropBlanks_eq_self hblank] at hk
    cases k with
    | zero => exact ⟨hstarts, hwhole, isSettled_of_lowerChars_eq hk, hbuiltin⟩
    | succ k =>
        exfalso
        have hplus : '+' ∈ n.toList :=
          mem_of_mem_lowerChars (by decide) (by decide) (by rw [hk]; exact .head _)
        exact absurd (hparts _ hplus) (by decide +kernel)
  · exact fun h => h.scan h.normalize

end Token
end RuleSheet
