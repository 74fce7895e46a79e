import RuleSheet.Proofs.Phrase

/-!
# The postorder of a phrase

The tokens of a phrase are converted into the postorder of its ordered phrase, whatever
phrase it was that derived them. The numbers are read and the names are looked up in the
order of the tokens, each once, so the calls of getters are those of reading the ordered
phrase from left to right. Parentheses leave no trace.
-/
namespace RuleSheet
open Formula
variable {W α β : Type}

namespace Attempt

theorem outcome_mapM_cons {f : α → Attempt W β} {a : α} {as : List α} {x : β} {xs : List β}
    {h j k : Host W} (hx : (f a).outcome h = (.ok x, j))
    (hxs : (as.mapM f).outcome j = (.ok xs, k)) :
    ((a :: as).mapM f).outcome h = (.ok (x :: xs), k) := by
  rw [List.mapM_cons]
  exact outcome_bind_ok.mpr ⟨x, j, hx, outcome_bind_ok.mpr ⟨xs, k, hxs, rfl⟩⟩

theorem outcome_mapM_append {f : α → Attempt W β} {as bs : List α} {xs ys : List β}
    {h j k : Host W} (hxs : (as.mapM f).outcome h = (.ok xs, j))
    (hys : (bs.mapM f).outcome j = (.ok ys, k)) :
    ((as ++ bs).mapM f).outcome h = (.ok (xs ++ ys), k) := by
  rw [List.mapM_append]
  exact outcome_bind_ok.mpr ⟨xs, j, hxs, outcome_bind_ok.mpr ⟨ys, k, hys, rfl⟩⟩

end Attempt

theorem Table.exists_run_resolve {t : Table W} {n : String} (hn : t.contains n = true)
    (h : Host W) : ∃ x, ((t.resolve n).run h).1 = some x := by
  rw [run_resolve, current?]
  rw [contains] at hn
  cases hget : t.get n with
  | none =>
      rw [hget] at hn
      cases hn
  | some symbol => cases symbol <;> exact ⟨_, rfl⟩

namespace Phrase

/-- Reads the numbers and names of a phrase from left to right. -/
def read (t : Table W) : Phrase → Attempt W Bracketed
  | number text =>
      match Number.read? text.toList with
      | some x => pure (.value x)
      | none => throw (.invalidNumber text)
  | symbol n => do
      match ← t.resolve n with
      | some x => pure (.value x)
      | none => throw (.unknownIdentifier n)
  | call f e =>
      match Builtin.ofName? f with
      | some g => do return .call g (← e.read t)
      | none => throw (.unknownIdentifier f)
  | group e => do return .group (← e.read t)
  | binary op l r => do return .binary op (← l.read t) (← r.read t)

/-- The phrase is read as a bracketed expression, and so are its tokens. The order of the
phrase carries over. -/
structure ReadsAs (t : Table W) (p : Phrase) (h : Host W) (b : Bracketed) (k : Host W) :
    Prop where
  read : (p.read t).outcome h = (.ok b, k)
  pieces : (p.tokens.mapM (Piece.read t) : Attempt W _).outcome h = (.ok b.pieces, k)
  grouped : p.Ordered → b.Grouped
  level : p.Ordered → ∀ o ∈ b.exposed, p.level ≤ strength o

section
variable {t : Table W} {h j k : Host W}

theorem ReadsAs.enclosed {e : Phrase} {b : Bracketed} (he : ReadsAs t e h b k) :
    ((.opening :: (e.tokens ++ [Token.closing])).mapM (Piece.read t) : Attempt W _).outcome h =
      (.ok (.opening :: (b.pieces ++ [.closing])), k) :=
  Attempt.outcome_mapM_cons rfl (Attempt.outcome_mapM_append he.pieces rfl)

theorem ReadsAs.value {p : Phrase} {token : Token} {x : Float} (hp : p.tokens = [token])
    (hread : (p.read t).outcome h = (.ok (.value x), k))
    (htoken : (Piece.read t token).outcome h = (.ok (.value x), k)) :
    ReadsAs t p h (.value x) k where
  read := hread
  pieces := by
    rw [hp]
    exact Attempt.outcome_mapM_cons htoken rfl
  grouped _ := trivial
  level := by simp [Bracketed.exposed]

theorem ReadsAs.call {f : String} {g : Builtin} (hg : Builtin.ofName? f = some g)
    (hf : t.contains f = false) {e : Phrase} {b : Bracketed} (he : ReadsAs t e h b k) :
    ReadsAs t (.call f e) h (.call g b) k where
  read := by
    rw [Phrase.read, hg]
    exact Attempt.outcome_bind_ok.mpr ⟨b, k, he.read, rfl⟩
  pieces := by
    have hget : t.get f = none := Option.not_isSome_iff_eq_none.mp (Bool.eq_false_iff.mp hf)
    have hresolve : t.resolve f = pure none := by
      rw [Table.resolve, hget]
    have hname : (Piece.read t (.name f)).outcome h = (.ok (.function g), h) := by
      simp [Piece.read, hresolve, hg]
    exact Attempt.outcome_mapM_cons hname he.enclosed
  grouped := he.grouped
  level := by simp [Bracketed.exposed]

theorem ReadsAs.group {e : Phrase} {b : Bracketed} (he : ReadsAs t e h b k) :
    ReadsAs t (.group e) h (.group b) k where
  read := Attempt.outcome_bind_ok.mpr ⟨b, k, he.read, rfl⟩
  pieces := he.enclosed
  grouped := he.grouped
  level := by simp [Bracketed.exposed]

theorem ReadsAs.binary {l r : Phrase} {bl br : Bracketed} (hl : ReadsAs t l h bl j)
    (hr : ReadsAs t r j br k) (op : Operator) :
    ReadsAs t (.binary op l r) h (.binary op bl br) k where
  read := Attempt.outcome_bind_ok.mpr
    ⟨bl, j, hl.read, Attempt.outcome_bind_ok.mpr ⟨br, k, hr.read, rfl⟩⟩
  pieces := Attempt.outcome_mapM_append hl.pieces (Attempt.outcome_mapM_cons rfl hr.pieces)
  grouped hp := by
    obtain ⟨hol, hor, hleft, hright⟩ := hp
    exact ⟨hl.grouped hol, hr.grouped hor, fun o ho => hleft.yieldsTo (hl.level hol o ho),
      fun o ho => hright.yieldsTo (hr.level hor o ho)⟩
  level hp o ho := by
    obtain ⟨hol, hor, hleft, hright⟩ := hp
    rw [Bracketed.exposed, List.mem_append, List.mem_cons] at ho
    rcases ho with ho | rfl | ho
    · exact Nat.le_trans hleft.le (hl.level hol o ho)
    · exact Nat.le_refl _
    · exact Nat.le_trans hright.le (hr.level hor o ho)

end

theorem exists_readsAs {t : Table W} {p : Phrase} (hp : p.Over t) (h : Host W) :
    ∃ b k, ReadsAs t p h b k := by
  induction p generalizing h with
  | number text =>
      obtain ⟨x, hx⟩ := Option.isSome_iff_exists.mp hp
      have hread : (read t (number text)).outcome h = (.ok (.value x), h) := by
        rw [read, hx]
        rfl
      have htoken : (Piece.read t (.number text)).outcome h = (.ok (.value x), h) := by
        rw [Piece.read, hx]
        rfl
      exact ⟨_, _, .value rfl hread htoken⟩
  | symbol n =>
      obtain ⟨x, hx⟩ := Table.exists_run_resolve hp h
      have hread : (read t (symbol n)).outcome h = (.ok (.value x), ((t.resolve n).run h).2) := by
        rw [read, Attempt.outcome_lift_bind, hx]
        rfl
      have htoken : (Piece.read t (.name n)).outcome h =
          (.ok (.value x), ((t.resolve n).run h).2) := by
        rw [Piece.read, Attempt.outcome_lift_bind, hx]
        rfl
      exact ⟨_, _, .value rfl hread htoken⟩
  | call f e ih =>
      obtain ⟨hf, hfree, he⟩ := hp
      obtain ⟨g, hg⟩ := Option.isSome_iff_exists.mp hf
      obtain ⟨b, k, hb⟩ := ih he h
      exact ⟨_, _, hb.call hg hfree⟩
  | group e ih =>
      obtain ⟨b, k, hb⟩ := ih hp h
      exact ⟨_, _, hb.group⟩
  | binary op l r ihl ihr =>
      obtain ⟨bl, j, hbl⟩ := ihl hp.1 h
      obtain ⟨br, k, hbr⟩ := ihr hp.2 j
      exact ⟨_, _, hbl.binary hbr op⟩

/-- An ordered phrase is read as an expression whose postorder its tokens are converted to. -/
theorem ReadsAs.outcome_ofTokens {t : Table W} {p : Phrase} {h k : Host W} {b : Bracketed}
    (hb : ReadsAs t p h b k) (hp : p.Ordered) :
    (Postfix.ofTokens t p.tokens).outcome h = (.ok b.tree.postorder, k) :=
  Postfix.outcome_ofTokens.mpr ⟨_, hb.pieces, Bracketed.ofPieces_pieces (hb.grouped hp)⟩

/-! Putting a phrase in order leaves it over the table. -/

theorem Over.attach {t : Table W} {p a : Phrase} (hp : p.Over t) (ha : a.Over t)
    (op : Operator) : (p.attach op a).Over t := by
  induction p with
  | binary above l r _ ihr =>
      by_cases hfits : FitsLeft op (strength above)
      · rw [attach_of_fits hfits]
        exact ⟨hp, ha⟩
      · rw [attach_binary hfits]
        exact ⟨hp.1, ihr hp.2⟩
  | _ => exact ⟨hp, ha⟩

theorem Over.attachAll {t : Table W} {p : Phrase} (hp : p.Over t)
    {more : List (Operator × Phrase)} (hmore : ∀ x ∈ more, x.2.Over t) :
    (p.attachAll more).Over t := by
  induction more generalizing p with
  | nil => exact hp
  | cons x more ih =>
      exact ih (hp.attach (hmore x (.head _)) x.1) fun y hy => hmore y (.tail _ hy)

theorem Over.of_mem_operands {t : Table W} {p a : Phrase} (hp : p.Over t)
    (ha : a ∈ p.operands) : a.Over t := by
  induction p with
  | binary op l r ihl ihr =>
      rw [operands_binary, List.mem_append] at ha
      exact ha.elim (ihl hp.1) (ihr hp.2)
  | _ =>
      obtain rfl := List.mem_singleton.mp ha
      exact hp

theorem Over.regroup {t : Table W} {p : Phrase} (hp : p.Over t) : p.regroup.Over t := by
  induction p with
  | number text => exact hp
  | symbol n => exact hp
  | call f e ih => exact ⟨hp.1, hp.2.1, ih hp.2.2⟩
  | group e ih => exact ih hp
  | binary op l r ihl ihr =>
      exact (ihl hp.1).attachAll fun x hx => (ihr hp.2).of_mem_operands (mem_operands hx)

/-- Tokens that are derived from the grammar have one ordered phrase. They are always
converted, and what they are converted to is the postorder of the tree that the ordered phrase
is read as, without its parentheses. So they have the value of this tree. -/
theorem ofTokens_postorder {t : Table W} {p : Phrase} (hp : p.Over t) :
    ∃ q : Phrase, q.Ordered ∧ q.tokens = p.tokens ∧
      (∀ q' : Phrase, q'.Ordered → q'.tokens = p.tokens → q' = q) ∧
      ∀ h : Host W, ∃ b k, (q.read t).outcome h = (.ok b, k) ∧
        (Postfix.ofTokens t p.tokens).outcome h = (.ok b.tree.postorder, k) ∧
        Postfix.value b.tree.postorder = .ok b.tree.eval := by
  refine ⟨p.regroup, p.ordered_regroup, p.tokens_regroup, fun q' hq' htokens => ?_, fun h => ?_⟩
  · exact hq'.eq_of_tokens p.ordered_regroup (htokens.trans p.tokens_regroup.symm)
  · obtain ⟨b, k, hb⟩ := exists_readsAs hp.regroup h
    have hconverted := hb.outcome_ofTokens p.ordered_regroup
    rw [p.tokens_regroup] at hconverted
    exact ⟨b, k, hb.read, hconverted, b.tree.value_postorder⟩

theorem ofTokens_postorder_power :
    let t : Table Unit := .initial
    let p : Phrase := .binary .power (.binary .power (.number "2") (.number "3"))
      (.binary .subtract (.symbol "pi") (.call "sqrt" (.group (.number "4"))))
    p.Over t ∧ ∃ q : Phrase, q.Ordered ∧ q.tokens = p.tokens ∧
      (∀ q' : Phrase, q'.Ordered → q'.tokens = p.tokens → q' = q) ∧
      ∀ h : Host Unit, ∃ b k, (q.read t).outcome h = (.ok b, k) ∧
        (Postfix.ofTokens t p.tokens).outcome h = (.ok b.tree.postorder, k) ∧
        Postfix.value b.tree.postorder = .ok b.tree.eval := by
  intro t p
  have hp : p.Over t := by
    decide +kernel
  exact ⟨hp, ofTokens_postorder hp⟩

end Phrase
end RuleSheet
