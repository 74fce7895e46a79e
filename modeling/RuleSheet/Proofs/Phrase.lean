import RuleSheet.Proofs.Formula.Value

/-!
# Phrases and their order

A phrase is one way to derive a list of tokens from the grammar of expressions. The grammar
says nothing of how strongly operators bind, so most lists have several phrases. In an
ordered phrase every operator has the operands that strength and direction give it: powers
group to the right, and all other operators to the left.

Every phrase can be put in order without a change of its tokens, by attaching its operands
one after the other from left to right. An operand is attached where the strength of the
operator before it allows, as far up as possible. There is only one ordered phrase of a list
of tokens: the tokens tell the operands and the operators between them, and attaching these
gives back the ordered phrase.
-/
namespace RuleSheet
open Formula
variable {W : Type}

inductive Phrase where
  | number (text : String)
  | symbol (n : String)
  | call (f : String) (e : Phrase)
  | group (e : Phrase)
  | binary (op : Operator) (l r : Phrase)
  deriving DecidableEq

namespace Phrase

/-- The tokens that the phrase derives. -/
def tokens : Phrase → List Token
  | number text => [.number text]
  | symbol n => [.name n]
  | call f e => .name f :: .opening :: (e.tokens ++ [.closing])
  | group e => .opening :: (e.tokens ++ [.closing])
  | binary op l r => l.tokens ++ .operator op :: r.tokens

/-- Numbers can be read, names are in the table, and a called function is not. -/
def Over (t : Table W) : Phrase → Prop
  | number text => (Number.read? text.toList).isSome = true
  | symbol n => t.contains n = true
  | call f e => Builtin.isName f = true ∧ t.contains f = false ∧ e.Over t
  | group e => e.Over t
  | binary _ l r => l.Over t ∧ r.Over t

instance decidableOver (t : Table W) : (p : Phrase) → Decidable (p.Over t)
  | number text => inferInstanceAs (Decidable ((Number.read? text.toList).isSome = true))
  | symbol n => inferInstanceAs (Decidable (t.contains n = true))
  | call f e =>
      have := decidableOver t e
      inferInstanceAs (Decidable (Builtin.isName f = true ∧ t.contains f = false ∧ e.Over t))
  | group e => decidableOver t e
  | binary _ l r =>
      have := decidableOver t l
      have := decidableOver t r
      inferInstanceAs (Decidable (l.Over t ∧ r.Over t))

/-- The strength of the outermost operator. What is no operation has a level of its own. -/
def level : Phrase → Nat
  | binary op _ _ => strength op
  | _ => operandLevel

/-- Every operand fits the operator that it belongs to. -/
def Ordered : Phrase → Prop
  | number _ => True
  | symbol _ => True
  | call _ e => e.Ordered
  | group e => e.Ordered
  | binary op l r => l.Ordered ∧ r.Ordered ∧ FitsLeft op l.level ∧ FitsRight op r.level

theorem fitsLeft_operandLevel (op : Operator) : FitsLeft op operandLevel := by
  cases op <;> decide

theorem fitsRight_operandLevel (op : Operator) : FitsRight op operandLevel := by
  cases op <;> decide

theorem fitsLeft_mono {op : Operator} {level more : Nat} (h : FitsLeft op level)
    (hle : level ≤ more) : FitsLeft op more := by
  unfold FitsLeft at *
  split
  · rename_i hop
    rw [if_pos hop] at h
    exact Nat.lt_of_lt_of_le h hle
  · rename_i hop
    rw [if_neg hop] at h
    exact Nat.le_trans h hle

theorem fitsRight_mono {op : Operator} {level more : Nat} (h : FitsRight op level)
    (hle : level ≤ more) : FitsRight op more := by
  unfold FitsRight at *
  split
  · rename_i hop
    rw [if_pos hop] at h
    exact Nat.le_trans h hle
  · rename_i hop
    rw [if_neg hop] at h
    exact Nat.lt_of_lt_of_le h hle

/-- An operator that may not take what another one stands over on its left may stand on the
right of the other one. -/
theorem fitsRight_of_not_fitsLeft {op above : Operator} (h : ¬FitsLeft op (strength above)) :
    FitsRight above (strength op) := by
  revert h
  cases op <;> cases above <;> decide

theorem not_fitsLeft_of_fitsRight {op above : Operator} {level : Nat}
    (h : FitsRight above level) (hlevel : level ≤ strength op) :
    ¬FitsLeft op (strength above) := by
  intro hfits
  have hyields := hfits.yieldsTo (Nat.le_refl _)
  rw [h.yieldsTo hlevel] at hyields
  cases hyields

/-- The phrase with an operator and an operand after it. -/
def attach : Phrase → Operator → Phrase → Phrase
  | binary above l r, op, a =>
      if FitsLeft op (strength above) then binary op (binary above l r) a
      else binary above l (r.attach op a)
  | p, op, a => binary op p a

/-- The phrase with several operators and their operands after it. -/
def attachAll (p : Phrase) (more : List (Operator × Phrase)) : Phrase :=
  more.foldl (fun q x => q.attach x.1 x.2) p

theorem attachAll_cons (p : Phrase) (x : Operator × Phrase) (more : List (Operator × Phrase)) :
    p.attachAll (x :: more) = (p.attach x.1 x.2).attachAll more := rfl

@[simp] theorem attachAll_append (p : Phrase) (more rest : List (Operator × Phrase)) :
    p.attachAll (more ++ rest) = (p.attachAll more).attachAll rest :=
  List.foldl_append

theorem attach_of_fits {p : Phrase} {op : Operator} (h : FitsLeft op p.level) (a : Phrase) :
    p.attach op a = binary op p a := by
  cases p with
  | binary above l r => exact if_pos h
  | _ => rfl

theorem attach_binary {op above : Operator} (h : ¬FitsLeft op (strength above))
    (l r a : Phrase) : (binary above l r).attach op a = binary above l (r.attach op a) :=
  if_neg h

@[simp] theorem tokens_attach (p : Phrase) (op : Operator) (a : Phrase) :
    (p.attach op a).tokens = p.tokens ++ .operator op :: a.tokens := by
  induction p with
  | binary above l r _ ihr =>
      by_cases h : FitsLeft op (strength above)
      · rw [attach_of_fits h]
        rfl
      · rw [attach_binary h, tokens, ihr, tokens, List.append_assoc]
        rfl
  | _ => rfl

theorem level_attach (p : Phrase) (op : Operator) (a : Phrase) :
    (p.attach op a).level = strength op ∨ (p.attach op a).level = p.level := by
  cases p with
  | binary above l r =>
      by_cases h : FitsLeft op (strength above)
      · rw [attach_of_fits h]
        exact .inl rfl
      · rw [attach_binary h]
        exact .inr rfl
  | _ => exact .inl rfl

theorem Ordered.attach {p a : Phrase} (hp : p.Ordered) (ha : a.Ordered)
    (hlevel : a.level = operandLevel) (op : Operator) : (p.attach op a).Ordered := by
  have hright : FitsRight op a.level := hlevel ▸ fitsRight_operandLevel op
  induction p with
  | binary above l r _ ihr =>
      by_cases h : FitsLeft op (strength above)
      · rw [attach_of_fits h]
        exact ⟨hp, ha, h, hright⟩
      · rw [attach_binary h]
        refine ⟨hp.1, ihr hp.2.1, hp.2.2.1, ?_⟩
        rcases level_attach r op a with hl | hl
        · rw [hl]
          exact fitsRight_of_not_fitsLeft h
        · rw [hl]
          exact hp.2.2.2
  | _ => exact ⟨hp, ha, fitsLeft_operandLevel op, hright⟩

/-! The operands of a phrase, with the operators between them. -/

/-- The operand that the phrase begins with. -/
def first : Phrase → Phrase
  | binary _ l _ => l.first
  | p => p

/-- The operators after the first operand, each with the operand after it. -/
def rest : Phrase → List (Operator × Phrase)
  | binary op l r => l.rest ++ (op, r.first) :: r.rest
  | _ => []

/-- The operands outside all parentheses. -/
def operands (p : Phrase) : List Phrase :=
  p.first :: p.rest.map Prod.snd

/-- The tokens of operators and their operands. -/
def tokensAfter (more : List (Operator × Phrase)) : List Token :=
  more.flatMap fun x => .operator x.1 :: x.2.tokens

@[simp] theorem tokensAfter_cons (op : Operator) (a : Phrase) (more : List (Operator × Phrase)) :
    tokensAfter ((op, a) :: more) = .operator op :: (a.tokens ++ tokensAfter more) := rfl

@[simp] theorem tokensAfter_append (more rest : List (Operator × Phrase)) :
    tokensAfter (more ++ rest) = tokensAfter more ++ tokensAfter rest :=
  List.flatMap_append

theorem tokens_eq (p : Phrase) : p.tokens = p.first.tokens ++ tokensAfter p.rest := by
  induction p with
  | binary op l r ihl ihr =>
      rw [tokens, ihl, ihr, first, rest, tokensAfter_append, tokensAfter_cons, List.append_assoc]
  | _ => exact (List.append_nil _).symm

@[simp] theorem tokens_attachAll (p : Phrase) (more : List (Operator × Phrase)) :
    (p.attachAll more).tokens = p.tokens ++ tokensAfter more := by
  induction more generalizing p with
  | nil => exact (List.append_nil _).symm
  | cons x more ih =>
      rw [attachAll_cons, ih, tokens_attach, List.append_assoc]
      rfl

@[simp] theorem operands_binary (op : Operator) (l r : Phrase) :
    (binary op l r).operands = l.operands ++ r.operands := by
  simp [operands, first, rest]

theorem mem_operands_of_mem_rest {p : Phrase} {x : Operator × Phrase} (hx : x ∈ p.rest) :
    x.2 ∈ p.operands :=
  .tail _ (List.mem_map_of_mem hx)

theorem mem_operands {p : Phrase} {op : Operator} {x : Operator × Phrase}
    (hx : x ∈ (op, p.first) :: p.rest) : x.2 ∈ p.operands := by
  rcases List.mem_cons.mp hx with rfl | hx
  · exact .head _
  · exact mem_operands_of_mem_rest hx

theorem level_of_mem_operands {p a : Phrase} (ha : a ∈ p.operands) : a.level = operandLevel := by
  induction p with
  | binary op l r ihl ihr =>
      rw [operands_binary, List.mem_append] at ha
      exact ha.elim ihl ihr
  | _ =>
      obtain rfl := List.mem_singleton.mp ha
      rfl

theorem Ordered.of_mem_operands {p a : Phrase} (hp : p.Ordered) (ha : a ∈ p.operands) :
    a.Ordered := by
  induction p with
  | binary op l r ihl ihr =>
      rw [operands_binary, List.mem_append] at ha
      exact ha.elim (ihl hp.1) (ihr hp.2.1)
  | _ =>
      obtain rfl := List.mem_singleton.mp ha
      exact hp

theorem Ordered.attachAll {p : Phrase} (hp : p.Ordered) {more : List (Operator × Phrase)}
    (hmore : ∀ x ∈ more, x.2.Ordered ∧ x.2.level = operandLevel) :
    (p.attachAll more).Ordered := by
  induction more generalizing p with
  | nil => exact hp
  | cons x more ih =>
      obtain ⟨hx, hlevel⟩ := hmore x (.head _)
      exact ih (hp.attach hx hlevel x.1) fun y hy => hmore y (.tail _ hy)

/-! Putting a phrase in order. -/

/-- The ordered phrase with the same tokens. -/
def regroup : Phrase → Phrase
  | number text => number text
  | symbol n => symbol n
  | call f e => call f e.regroup
  | group e => group e.regroup
  | binary op l r => l.regroup.attachAll ((op, r.regroup.first) :: r.regroup.rest)

@[simp] theorem tokens_regroup (p : Phrase) : p.regroup.tokens = p.tokens := by
  induction p with
  | number text => rfl
  | symbol n => rfl
  | call f e ih => rw [regroup, tokens, ih, tokens]
  | group e ih => rw [regroup, tokens, ih, tokens]
  | binary op l r ihl ihr =>
      rw [regroup, tokens_attachAll, ihl, tokensAfter_cons, ← tokens_eq, ihr, tokens]

theorem ordered_regroup (p : Phrase) : p.regroup.Ordered := by
  induction p with
  | number text => trivial
  | symbol n => trivial
  | call f e ih => exact ih
  | group e ih => exact ih
  | binary op l r ihl ihr =>
      refine ihl.attachAll fun x hx => ?_
      have hoperand := mem_operands hx
      exact ⟨ihr.of_mem_operands hoperand, level_of_mem_operands hoperand⟩

/-- Powers group to the right, and their difference is taken last. -/
example :
    (binary .power (number "2") (binary .subtract (binary .power (number "3") (symbol "x"))
      (symbol "y"))).regroup =
    binary .subtract (binary .power (number "2") (binary .power (number "3") (symbol "x")))
      (symbol "y") := by
  decide

/-! An ordered phrase is what attaching its operands gives. -/

theorem Ordered.level_le {p : Phrase} (hp : p.Ordered) {x : Operator × Phrase}
    (hx : x ∈ p.rest) : p.level ≤ strength x.1 := by
  induction p with
  | binary op l r ihl ihr =>
      obtain ⟨hl, hr, hleft, hright⟩ := hp
      rw [rest, List.mem_append, List.mem_cons] at hx
      rcases hx with hx | rfl | hx
      · exact Nat.le_trans hleft.le (ihl hl hx)
      · exact Nat.le_refl _
      · exact Nat.le_trans hright.le (ihr hr hx)
  | _ => cases hx

/-- What may not take the whole operation goes to its right operand. -/
theorem attachAll_binary {op : Operator} {more : List (Operator × Phrase)}
    (h : ∀ x ∈ more, ¬FitsLeft x.1 (strength op)) (l r : Phrase) :
    (binary op l r).attachAll more = binary op l (r.attachAll more) := by
  induction more generalizing r with
  | nil => rfl
  | cons x more ih =>
      rw [attachAll_cons, attach_binary (h x (.head _)), ih fun y hy => h y (.tail _ hy)]
      rfl

theorem Ordered.attachAll_rest {p : Phrase} (hp : p.Ordered) : p.first.attachAll p.rest = p := by
  induction p with
  | binary op l r ihl ihr =>
      obtain ⟨hl, hr, hleft, hright⟩ := hp
      have hmore : ∀ x ∈ r.rest, ¬FitsLeft x.1 (strength op) :=
        fun x hx => not_fitsLeft_of_fitsRight hright (hr.level_le hx)
      rw [first, rest, attachAll_append, ihl hl, attachAll_cons, attach_of_fits hleft,
        attachAll_binary hmore, ihr hr]
  | _ => rfl

/-! The tokens of an ordered phrase tell its operands. -/

/-- What may come after an operand. -/
def FollowsOperand (s : List Token) : Prop :=
  s.head? ≠ some .opening

/-- What may come after a whole phrase. -/
def FollowsPhrase (s : List Token) : Prop :=
  ∀ x ∈ s.head?, x = .closing

/-- The operand is found at the front of all tokens that begin with it. -/
def Determined (a : Phrase) : Prop :=
  ∀ b s s', a.Ordered → b.Ordered → b.level = operandLevel → FollowsOperand s →
    FollowsOperand s' → a.tokens ++ s = b.tokens ++ s' → a = b ∧ s = s'

theorem followsOperand_tokensAfter {s : List Token} (hs : FollowsPhrase s)
    (more : List (Operator × Phrase)) : FollowsOperand (tokensAfter more ++ s) := by
  cases more with
  | nil =>
      intro hopening
      cases hs .opening hopening
  | cons x more =>
      intro hopening
      cases hopening

theorem rest_unique {more more' : List (Operator × Phrase)} {s s' : List Token}
    (hdetermined : ∀ x ∈ more, x.2.Determined) (hordered : ∀ x ∈ more, x.2.Ordered)
    (hordered' : ∀ x ∈ more', x.2.Ordered ∧ x.2.level = operandLevel)
    (hs : FollowsPhrase s) (hs' : FollowsPhrase s')
    (h : tokensAfter more ++ s = tokensAfter more' ++ s') : more = more' ∧ s = s' := by
  induction more generalizing more' with
  | nil =>
      cases more' with
      | nil => exact ⟨rfl, h⟩
      | cons x more' =>
          obtain rfl : s = _ := h
          cases hs _ rfl
  | cons x more ih =>
      cases more' with
      | nil =>
          obtain rfl : _ = s' := h
          cases hs' _ rfl
      | cons x' more' =>
          obtain ⟨op, a⟩ := x
          obtain ⟨op', a'⟩ := x'
          rw [tokensAfter_cons, tokensAfter_cons, List.cons_append, List.cons_append,
            List.cons.injEq, List.append_assoc, List.append_assoc] at h
          obtain ⟨hop, htokens⟩ := h
          obtain rfl := Token.operator.inj hop
          obtain ⟨ha', hlevel⟩ := hordered' _ (.head _)
          obtain ⟨rfl, hafter⟩ := hdetermined _ (.head _) a' _ _ (hordered _ (.head _)) ha' hlevel
            (followsOperand_tokensAfter hs _) (followsOperand_tokensAfter hs' _) htokens
          obtain ⟨rfl, rfl⟩ := ih (fun y hy => hdetermined y (.tail _ hy))
            (fun y hy => hordered y (.tail _ hy)) (fun y hy => hordered' y (.tail _ hy)) hafter
          exact ⟨rfl, rfl⟩

/-- Two ordered phrases at the front of the same tokens are equal, if the operands of one
of them are determined. -/
theorem Ordered.unique {p q : Phrase} (hp : p.Ordered) (hq : q.Ordered)
    (hdetermined : ∀ a ∈ p.operands, a.Determined) {s s' : List Token} (hs : FollowsPhrase s)
    (hs' : FollowsPhrase s') (h : p.tokens ++ s = q.tokens ++ s') : p = q ∧ s = s' := by
  rw [p.tokens_eq, q.tokens_eq, List.append_assoc, List.append_assoc] at h
  obtain ⟨hfirst, hafter⟩ := hdetermined _ (.head _) q.first _ _
    (hp.of_mem_operands (.head _)) (hq.of_mem_operands (.head _))
    (level_of_mem_operands (.head _)) (followsOperand_tokensAfter hs _)
    (followsOperand_tokensAfter hs' _) h
  obtain ⟨hmore, hend⟩ := rest_unique
    (fun x hx => hdetermined _ (mem_operands_of_mem_rest hx))
    (fun x hx => hp.of_mem_operands (mem_operands_of_mem_rest hx))
    (fun x hx => ⟨hq.of_mem_operands (mem_operands_of_mem_rest hx),
      level_of_mem_operands (mem_operands_of_mem_rest hx)⟩) hs hs' hafter
  rw [← hp.attachAll_rest, ← hq.attachAll_rest, hfirst, hmore]
  exact ⟨rfl, hend⟩

theorem eq_of_enclosed {e e' : Phrase} {s s' : List Token}
    (hdetermined : ∀ a ∈ e.operands, a.Determined) (he : e.Ordered) (he' : e'.Ordered)
    (h : e.tokens ++ [.closing] ++ s = e'.tokens ++ [.closing] ++ s') : e = e' ∧ s = s' := by
  have hclosing (s : List Token) : FollowsPhrase (.closing :: s) := by
    intro x hx
    exact (Option.some.inj hx).symm
  rw [List.append_assoc, List.append_assoc] at h
  obtain ⟨heq, hend⟩ := he.unique he' hdetermined (hclosing s) (hclosing s') h
  exact ⟨heq, (List.cons.inj hend).2⟩

theorem determined_of_mem_operands {p a : Phrase} (ha : a ∈ p.operands) : a.Determined := by
  induction p generalizing a with
  | binary op l r ihl ihr =>
      rw [operands_binary, List.mem_append] at ha
      exact ha.elim ihl ihr
  | number text =>
      obtain rfl : a = number text := List.mem_singleton.mp ha
      intro b s s' _ _ hlevel _ _ h
      cases b with
      | number text' =>
          cases h
          exact ⟨rfl, rfl⟩
      | binary op l r => exact absurd hlevel (strength_ne_operandLevel op)
      | _ => cases h
  | symbol n =>
      obtain rfl : a = symbol n := List.mem_singleton.mp ha
      intro b s s' _ _ hlevel hs _ h
      cases b with
      | symbol n' =>
          cases h
          exact ⟨rfl, rfl⟩
      | call f e =>
          cases h
          exact absurd rfl hs
      | binary op l r => exact absurd hlevel (strength_ne_operandLevel op)
      | _ => cases h
  | call f e ih =>
      obtain rfl : a = call f e := List.mem_singleton.mp ha
      intro b s s' he hb hlevel _ hs' h
      cases b with
      | call f' e' =>
          obtain ⟨hname, htokens⟩ := List.cons.inj h
          obtain rfl := Token.name.inj hname
          obtain ⟨rfl, rfl⟩ := eq_of_enclosed (fun a ha => ih ha) he (show e'.Ordered from hb)
            (List.cons.inj htokens).2
          exact ⟨rfl, rfl⟩
      | symbol n =>
          cases h
          exact absurd rfl hs'
      | binary op l r => exact absurd hlevel (strength_ne_operandLevel op)
      | _ => cases h
  | group e ih =>
      obtain rfl : a = group e := List.mem_singleton.mp ha
      intro b s s' he hb hlevel _ _ h
      cases b with
      | group e' =>
          obtain ⟨rfl, rfl⟩ := eq_of_enclosed (fun a ha => ih ha) he (show e'.Ordered from hb)
            (List.cons.inj h).2
          exact ⟨rfl, rfl⟩
      | binary op l r => exact absurd hlevel (strength_ne_operandLevel op)
      | _ => cases h

/-- Tokens have no more than one ordered phrase. -/
theorem Ordered.eq_of_tokens {p q : Phrase} (hp : p.Ordered) (hq : q.Ordered)
    (h : p.tokens = q.tokens) : p = q := by
  have hnone : FollowsPhrase [] := by
    intro x hx
    cases hx
  exact (hp.unique hq (fun a ha => determined_of_mem_operands ha) hnone hnone
    (by rw [h])).1

end Phrase
end RuleSheet
