import RuleSheet.Proofs.Expression
import RuleSheet.Proofs.Formula.Reading
import RuleSheet.Proofs.Formula.Scan
import RuleSheet.Proofs.Number.Negation
import RuleSheet.Proofs.Postfix.Bracketed

/-!
# The value of a formula

A text that spells a formula over the names of a reachable session has a value in it,
and that is the value of the formula, with every name at its present value. The tokens
of the text are those of a bracketed expression, in which a minus sign has become a
group of its own; it is grouped as its operators bind because the formula was written
with the parentheses that it needs, and the yard sends the postorder of its tree. No
parenthesis is missing, so it makes no difference whether missing ones are completed.
-/
namespace RuleSheet
variable {W : Type}

namespace Formula
open Scan Piece

theorem strength_lt (op : Operator) : strength op < negationLevel := by
  cases op <;> decide

theorem strength_ne_operandLevel (op : Operator) : strength op ≠ operandLevel :=
  Nat.ne_of_lt (Nat.lt_succ_of_lt (strength_lt op))

theorem eq_power_of_strength {op : Operator} (h : strength op = strength .power) :
    op = .power := by
  revert h
  cases op <;> decide

/-- Operators are finished in the order of their strengths, and of two that bind alike
the first is finished first unless they are powers. -/
theorem yieldsTo_iff {upper next : Operator} :
    upper.yieldsTo next = true ↔
      strength next < strength upper ∨ strength upper = strength next ∧ next ≠ .power := by
  cases upper <;> cases next <;> decide

theorem FitsLeft.le {op : Operator} {level : Nat} (h : FitsLeft op level) :
    strength op ≤ level := by
  unfold FitsLeft at h
  split at h
  · exact Nat.le_of_lt h
  · exact h

theorem FitsRight.le {op : Operator} {level : Nat} (h : FitsRight op level) :
    strength op ≤ level := by
  unfold FitsRight at h
  split at h
  · exact h
  · exact Nat.le_of_lt h

theorem FitsLeft.yieldsTo {op o : Operator} {level : Nat} (h : FitsLeft op level)
    (ho : level ≤ strength o) : o.yieldsTo op = true := by
  unfold FitsLeft at h
  rw [yieldsTo_iff]
  split at h
  · left
    omega
  · rename_i hpower
    rcases Nat.lt_or_eq_of_le (Nat.le_trans h ho) with hlt | heq
    · exact .inl hlt
    · exact .inr ⟨heq.symm, hpower⟩

theorem FitsRight.yieldsTo {op o : Operator} {level : Nat} (h : FitsRight op level)
    (ho : level ≤ strength o) : op.yieldsTo o = false := by
  have hle := h.le
  unfold FitsRight at h
  rw [Bool.eq_false_iff, ne_eq, yieldsTo_iff]
  intro hyields
  rcases hyields with hlt | ⟨heq, hpower⟩
  · omega
  · split at h
    · rename_i hop
      exact hpower (eq_power_of_strength (by rw [← heq, hop]))
    · omega

/-- The tokens and the bracketed expression that a formula is read as. -/
structure ReadAs (reading : String → Option Float) (e : Formula) (level : Nat)
    (tokens : List Token) (b : Bracketed) : Prop where
  stands : List.Forall₂ (Stands reading) tokens b.pieces
  grouped : b.Grouped
  level : ∀ o ∈ b.exposed, level ≤ strength o
  value : e.value reading = some b.tree.eval

theorem ReadAs.enclosed {reading : String → Option Float} {e : Formula} {level : Nat}
    {tokens : List Token} {b : Bracketed} (h : ReadAs reading e level tokens b) :
    List.Forall₂ (Stands reading) (.opening :: (tokens ++ [Token.closing]))
      (.opening :: (b.pieces ++ [.closing])) :=
  .cons .opening (List.rel_append h.stands (.cons .closing .nil))

theorem value_negate {reading : String → Option Float} {e : Formula} {x : Float}
    (hx : e.value reading = some x) (hliteral : ∀ digits, e = .literal digits →
      Numeral digits.toList) :
    (negate e).value reading = some (Operator.multiply.apply (-1) x) := by
  cases e with
  | literal digits =>
      obtain ⟨y, hy, hneg⟩ := (hliteral digits rfl).exists_read
      obtain rfl : y = x := Option.some.inj (hy.symm.trans hx)
      rw [value, hneg]
      exact congrArg some (Number.neg_one_mul y).symm
  | _ =>
      exact congrArg (fun v => v >>= fun y => some (Operator.multiply.apply (-1) y)) hx

/-- What is written at the highest level is a numeral, or it begins with a parenthesis or
a name. -/
theorem Written.starts {t : Table W} (ht : t.Named) {e : Formula} {cs : List Char}
    (h : Written e operandLevel cs) (he : e.Over t) :
    (∃ digits, e = .literal digits ∧ cs = digits.toList) ∨
      ∃ c tail, cs = c :: tail ∧ (c = '(' ∨ Lexeme.isNameChar c = true) := by
  generalize hlevel : operandLevel = level at h
  cases h with
  | literal digits => exact .inl ⟨digits, rfl, rfl⟩
  | name n =>
      right
      obtain ⟨c, tail, hn, hc⟩ := Lexeme.exists_cons_of_startsName (ht.identifier he).starts
      exact ⟨c, tail, hn, .inr hc⟩
  | call f _ =>
      obtain ⟨c, tail, hf, hc⟩ := exists_isNameChar he.1
      rw [hf]
      exact .inr ⟨c, _, List.cons_append, .inr hc⟩
  | group _ => exact .inr ⟨'(', _, rfl, .inl rfl⟩
  | parentheses _ => exact .inr ⟨'(', _, rfl, .inl rfl⟩
  | negate _ => cases hlevel
  | @binary op _ _ _ _ _ _ _ _ _ _ _ _ => exact absurd hlevel.symm (strength_ne_operandLevel op)

theorem ReadAs.literal {reading : String → Option Float} {digits : String} {x : Float}
    (hx : Number.read? digits.toList = some x) (level : Nat) :
    ReadAs reading (.literal digits) level [.number digits] (.value x) where
  stands := .cons (.number hx) .nil
  grouped := trivial
  level := by simp [Bracketed.exposed]
  value := hx

theorem ReadAs.name {reading : String → Option Float} {n : String} {x : Float}
    (hx : reading n = some x) (level : Nat) :
    ReadAs reading (.name n) level [.name n] (.value x) where
  stands := .cons (.symbol hx) .nil
  grouped := trivial
  level := by simp [Bracketed.exposed]
  value := hx

theorem ReadAs.negative {reading : String → Option Float} {digits : String} {x : Float}
    (hx : Number.read? ('-' :: digits.toList) = some x) (level : Nat) :
    ReadAs reading (.negate (.literal digits)) level
      [.number (String.ofList ('-' :: digits.toList))] (.value x) where
  stands := .cons (.number (by rwa [String.toList_ofList])) .nil
  grouped := trivial
  level := by simp [Bracketed.exposed]
  value := hx

theorem ReadAs.group {reading : String → Option Float} {e : Formula} {level : Nat}
    {tokens : List Token} {b : Bracketed} (h : ReadAs reading e level tokens b) (outer : Nat) :
    ReadAs reading e outer (.opening :: (tokens ++ [.closing])) (.group b) where
  stands := h.enclosed
  grouped := h.grouped
  level := by simp [Bracketed.exposed]
  value := h.value

theorem ReadAs.call {reading : String → Option Float} {f : String} {g : Builtin}
    (hf : reading f = none) (hg : Builtin.ofName? f = some g) {e : Formula} {level : Nat}
    {tokens : List Token} {b : Bracketed} (h : ReadAs reading e level tokens b) (outer : Nat) :
    ReadAs reading (.call f e) outer (.name f :: .opening :: (tokens ++ [.closing]))
      (.call g b) where
  stands := .cons (.function hf hg) h.enclosed
  grouped := h.grouped
  level := by simp [Bracketed.exposed]
  value := by
    simp only [Formula.value]
    rw [hg, h.value]
    rfl

/-- A minus sign is a multiplication in a group of its own, which no operator enters. -/
theorem ReadAs.negate {reading : String → Option Float} {e : Formula} {tokens : List Token}
    {b : Bracketed} (h : ReadAs reading e operandLevel tokens b)
    (hliteral : ∀ digits, e = .literal digits → Numeral digits.toList) (outer : Nat) :
    ReadAs reading (.negate e) outer
      (.opening :: .number "-1" :: .operator .multiply :: (tokens ++ [.closing]))
      (.group (.binary .multiply (.value (-1)) b)) where
  stands := by
    have hone : Number.read? "-1".toList = some (-1) := by
      decide +kernel
    exact .cons .opening (.cons (.number hone) (.cons (.operator .multiply)
      (List.rel_append h.stands (.cons .closing .nil))))
  grouped := by
    refine ⟨trivial, h.grouped, by simp [Bracketed.exposed], fun o ho => ?_⟩
    exact absurd (h.level o ho) (Nat.not_le_of_lt (Nat.lt_succ_of_lt (strength_lt o)))
  level := by simp [Bracketed.exposed]
  value := value_negate h.value hliteral

theorem ReadAs.binary {reading : String → Option Float} {op : Operator} {l r : Formula}
    {left right : Nat} {ls rs : List Token} {bl br : Bracketed}
    (hl : ReadAs reading l left ls bl) (hleft : FitsLeft op left)
    (hr : ReadAs reading r right rs br) (hright : FitsRight op right) :
    ReadAs reading (.binary op l r) (strength op) (ls ++ .operator op :: rs)
      (.binary op bl br) where
  stands := List.rel_append hl.stands (.cons (.operator op) hr.stands)
  grouped := ⟨hl.grouped, hr.grouped, fun o ho => hleft.yieldsTo (hl.level o ho),
    fun o ho => hright.yieldsTo (hr.level o ho)⟩
  level := by
    intro o ho
    rw [Bracketed.exposed, List.mem_append, List.mem_cons] at ho
    rcases ho with ho | rfl | ho
    · exact Nat.le_trans hleft.le (hl.level o ho)
    · exact Nat.le_refl _
    · exact Nat.le_trans hright.le (hr.level o ho)
  value := by
    simp only [Formula.value]
    rw [hl.value, hr.value]
    rfl

/-- A formula is scanned and read as a bracketed expression with its value. -/
theorem Written.exists_readAs {t : Table W} (ht : t.Named) {reading : String → Option Float}
    (hsymbol : ∀ n, (t.find? n).isSome = true → ∃ x, reading n = some x)
    (hfunction : ∀ f, Builtin.isName f = true → reading f = none) {e : Formula} {level : Nat}
    {cs : List Char} (h : Written e level cs) (he : e.Over t) :
    ∃ tokens b, Scans level cs tokens ∧ EndsOperand tokens ∧ ReadAs reading e level tokens b := by
  induction h with
  | literal digits =>
      obtain ⟨x, hx, _⟩ := Numeral.exists_read he
      exact ⟨_, _, scans_literal he _, fun _ _ _ => rfl, .literal hx _⟩
  | name n =>
      obtain ⟨x, hx⟩ := hsymbol n he
      exact ⟨_, _, scans_name (ht.identifier he) _, fun _ _ _ => rfl, .name hx _⟩
  | call f _ ih =>
      obtain ⟨hf, he⟩ := he
      obtain ⟨tokens, b, hscan, _, hread⟩ := ih he
      obtain ⟨g, hg⟩ := Option.isSome_iff_exists.mp hf
      exact ⟨_, _, scans_call hf hscan.encloses _,
        endsOperand_closing (.name f :: .opening :: tokens), hread.call (hfunction f hf) hg _⟩
  | group _ ih =>
      obtain ⟨tokens, b, hscan, _, hread⟩ := ih he
      have hgroup := hread.group operandLevel
      exact ⟨_, _, scans_group hscan.encloses _, endsOperand_closing (.opening :: tokens),
        hgroup.stands, hgroup.grouped, hgroup.level, hgroup.value⟩
  | parentheses _ ih =>
      obtain ⟨tokens, b, hscan, _, hread⟩ := ih he
      exact ⟨_, _, scans_group hscan.encloses _, endsOperand_closing (.opening :: tokens),
        hread.group _⟩
  | @negate e cs hw ih =>
      rcases hw.starts ht he with ⟨digits, rfl, rfl⟩ | hstart
      · obtain ⟨x, _, hneg⟩ := Numeral.exists_read he
        exact ⟨_, _, scans_negative he _, fun _ _ _ => rfl, .negative hneg _⟩
      · obtain ⟨tokens, b, hscan, _, hread⟩ := ih he
        refine ⟨_, _, scans_negate hscan hstart _,
          endsOperand_closing (.opening :: .number "-1" :: .operator .multiply :: tokens),
          hread.negate ?_ _⟩
        intro digits heq
        subst heq
        exact he
  | @binary op sign l r left right cs ds hsign _ hleft _ hright ihl ihr =>
      obtain ⟨ls, bl, hscanl, hendsl, hreadl⟩ := ihl he.1
      obtain ⟨rs, br, hscanr, hendsr, hreadr⟩ := ihr he.2
      have hends := hendsr.append_left (ls ++ [.operator op])
      rw [List.append_assoc] at hends
      exact ⟨_, _, scans_binary hsign hscanl hendsl hscanr (strength_ne_operandLevel op), hends,
        hreadl.binary hleft hreadr hright⟩

theorem ofNormal_of_scans {level : Nat} {cs : List Char} {tokens : List Token}
    (h : Scans level cs tokens) (autoBalance : Bool) :
    Token.ofNormal autoBalance cs = tokens := by
  have hends : Lexeme.EndsName [] := by
    intro c hc
    cases hc
  have hroom : Scan.start.Room level := by
    intro d hd
    cases hd
  have hrun := h Scan.start [] rfl hends hroom
  rw [List.append_nil, run_nil] at hrun
  have hempty : settle (tokens.reverse ++ Scan.start.tokens) Scan.start.depth
      Scan.start.closers = ⟨tokens.reverse, 0, []⟩ := by
    rw [show Scan.start.tokens = [] from rfl, List.append_nil]
    rfl
  rw [Token.ofNormal, hrun, hempty]
  simp [Scan.finish, Scan.balanced, Scan.inOrder]

end Formula

theorem Table.Named.exists_current {t : Table W} (ht : t.Named) (w : W) {n : String}
    (hn : (t.find? n).isSome = true) : ∃ x, t.current? w n = some x := by
  obtain ⟨symbol, hsymbol⟩ := Option.isSome_iff_exists.mp hn
  unfold Table.current?
  rw [ht.get hn, hsymbol]
  cases symbol with
  | constant x => exact ⟨x, rfl⟩
  | «variable» x => exact ⟨x, rfl⟩
  | accessor a => exact ⟨(a.get w).1, rfl⟩

namespace Session

/-- A text of a formula over the names of a session has the value of the formula, whether
missing parentheses are completed or not. Its names have their present values, which
reading them is not to change. -/
theorem value_of_spelled {s : Session W} (hs : s.Reachable) {e : Formula}
    (he : e.Over s.table) {text : String} (ht : e.Spelled text.toList) {h : Host W}
    (hsteady : s.table.Steady h.world) :
    ∃ x k, e.value (s.table.current? h.world) = some x ∧
      (s.evaluateExpression text).outcome h = (.ok x, k) := by
  obtain ⟨level, cs, hwritten, hcs⟩ := ht
  have hplain := hwritten.plain hs.named he
  have hfunction : ∀ f, Builtin.isName f = true → s.table.current? h.world f = none := by
    intro f hf
    rw [Table.current?, hs.named.get_of_isName hf]
  obtain ⟨tokens, b, hscan, _, hread⟩ := hwritten.exists_readAs hs.named
    (fun n hn => hs.named.exists_current h.world hn) hfunction he
  have htokens : Token.scan s.settings.autoBalance text.toList = tokens := by
    rw [Token.scan, Formula.normalize_of_spelled hplain hcs]
    exact Formula.ofNormal_of_scans hscan _
  obtain ⟨j, hj⟩ := Piece.exists_outcome_mapM hsteady hread.stands (.done h.world)
  have hitems := Postfix.outcome_ofTokens.mpr ⟨_, hj, Bracketed.ofPieces_pieces hread.grouped⟩
  refine ⟨b.tree.eval,
    ((Act.recordPrinted (Postfix.printed b.tree.postorder) : Act W Unit).run j).2,
    hread.value, ?_⟩
  rw [evaluateExpression, Expression.value_plain (Formula.not_mem_of_spelled hplain hcs),
    Expression.outcome_plainValue, htokens]
  exact ⟨_, j, hitems, b.tree.value_postorder, rfl⟩

/-- A minus sign before a call binds more tightly than a power. -/
theorem value_of_negated_call :
    let s : Session Unit := create {}
    let e : Formula := .binary .power
      (.negate (.call "abs" (.binary .multiply (.literal "2") (.name "pi")))) (.literal ".5")
    let text := "- Abs(2 * PI) ^ .5"
    e.Over s.table ∧ e.Spelled text.toList ∧ s.table.Steady () ∧
      ∃ x k, e.value (s.table.current? ()) = some x ∧
        (s.evaluateExpression text).outcome ⟨(), []⟩ = (.ok x, k) := by
  intro s e text
  have htwo : Numeral "2".toList := ⟨by simp, by simp, by simp⟩
  have hhalf : Numeral ".5".toList := ⟨by simp, by simp, by simp⟩
  have hcall : Builtin.isName "abs" = true := by
    decide +kernel
  have hname : (s.table.find? "pi").isSome = true := by
    decide +kernel
  have hover : e.Over s.table := ⟨⟨hcall, htwo, hname⟩, hhalf⟩
  have hmultiply : Operator.ofChar? '*' = some .multiply := rfl
  have hraise : Operator.ofChar? '^' = some .power := rfl
  have hproduct := Formula.Written.binary hmultiply (.literal "2") (by decide) (.name "pi")
    (by decide)
  have hpower := Formula.Written.binary hraise (.negate (.call "abs" hproduct)) (by decide)
    (.literal ".5") (by decide)
  have hspelled : e.Spelled text.toList := ⟨_, _, hpower, by decide +kernel⟩
  have hsteady : s.table.Steady () := Table.steady_initial ()
  exact ⟨hover, hspelled, hsteady, value_of_spelled (.create {}) hover hspelled hsteady⟩

end Session
end RuleSheet
