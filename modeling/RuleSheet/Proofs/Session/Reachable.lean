import RuleSheet.Proofs.Session.Effect
import RuleSheet.Proofs.Symbols
import RuleSheet.Proofs.Token.Identifier

/-!
# The sessions that a host can reach

A host opens a session and then calls it, any number of times and in any order. Between
two calls it may change its own world, so each call begins in a state of the host that
is not related to the one before. `Change` lists what a call can do to the table;
invariants of reachable sessions are shown for each kind of change.

The first of them is that every name in the table is an identifier, or the name of a
constant, and is its own key. No name in the table is the name of a function.
-/
namespace RuleSheet
variable {W : Type}

/-- What a host can ask of a session. -/
inductive Call (W : Type) where
  | evaluate (statement : String)
  | register (name : String) (a : Accessor W)
  | unregister (name : String)
  | removeVariable (name : String)
  | clearVariables
  | clearAccessors

namespace Session

/-- The session after a call. -/
def answer (s : Session W) : Call W → Act W (Session W)
  | .evaluate statement => do return (← s.evaluate statement).2
  | .register name a => do return (← s.register name a).2
  | .unregister name => return (s.unregister name).2
  | .removeVariable name => return (s.removeVariable name).2
  | .clearVariables => return s.clearVariables
  | .clearAccessors => return s.clearAccessors

/-- A session that was opened with some settings and called any number of times. -/
inductive Reachable : Session W → Prop
  | create (settings : EngineSettings) : Reachable (create settings)
  | call {s : Session W} (c : Call W) (h : Host W) :
      Reachable s → Reachable ((s.answer c).run h).1

/-- What a call can do to the table of a session. -/
inductive Change (s : Session W) : Table W → Prop
  | same : Change s s.table
  | added {t : Table W} {name : String} {symbol : Symbol W}
      (hname : s.checkNewName name = .ok ()) (hsymbol : symbol.isVariable ∨ symbol.isAccessor)
      (ht : t.entries = s.table.entries ++ [(Table.key name, symbol)]) : Change s t
  | replaced {t : Table W} {k : String} {x y : Float}
      (hk : s.table.find? k = some (.variable y)) (ht : s.table.Replaces k x t) : Change s t
  | kept {p : String × Symbol W → Bool} (hp : ∀ k x, (k, .constant x) ∈ s.table.entries →
      p (k, .constant x) = true) : Change s (s.table.keep p)

/-- A key that is free and that a left side stands for belongs to a declaration. -/
theorem declaration_of_named? {s : Session W} {statement k : String}
    (hn : s.named? statement = some k) (hk : s.table.find? k = none) :
    ∃ left right name, splitEquals statement.toList = some (left, right) ∧
      s.target left = .ok (.declaration name) ∧ Table.key name = k := by
  unfold named? at hn
  split at hn
  · cases hn
  · rename_i left right hsplit
    cases ht : s.target left with
    | error e =>
        rw [ht] at hn
        cases hn
    | ok target =>
        rw [ht] at hn
        obtain rfl : Table.key target.name = k := Option.some.inj hn
        have hw := writable_of_target ht
        cases target with
        | declaration name => exact ⟨left, right, name, hsplit, ht, rfl⟩
        | symbol name =>
            change s.table.find? (Table.key name) = none at hk
            rcases hw with ⟨y, hy⟩ | ⟨a, ha⟩
            · rw [hk] at hy
              cases hy
            · rw [hk] at ha
              cases ha

theorem checkNewName_of_named? {s : Session W} {statement k : String}
    (hn : s.named? statement = some k) (hk : s.table.find? k = none) :
    ∃ name, s.checkNewName name = .ok () ∧ Table.key name = k := by
  obtain ⟨_, _, name, _, ht, hkey⟩ := declaration_of_named? hn hk
  exact ⟨name, checkNewName_of_target ht, hkey⟩

theorem change_evaluate (s : Session W) (statement : String) (h : Host W) :
    s.Change ((s.evaluate statement).run h).1.2.table ∧
      ((s.evaluate statement).run h).1.2.settings = s.settings := by
  rcases evaluate_cases s statement h with ⟨e, j, hout, _⟩ | ⟨x, s', h', f, hout, hf⟩
  · rw [hout]
    exact ⟨.same, rfl⟩
  · rw [hout]
    cases f with
    | nothing =>
        obtain ⟨_, rfl, _⟩ := hf
        exact ⟨.same, rfl⟩
    | declared k =>
        obtain ⟨hn, hk, hsettings, hentries, _⟩ := hf
        obtain ⟨name, hname, rfl⟩ := checkNewName_of_named? hn hk
        exact ⟨.added hname (.inl rfl) hentries, hsettings⟩
    | replaced k =>
        obtain ⟨_, ⟨y, hy⟩, hsettings, ht, _⟩ := hf
        exact ⟨.replaced hy ht, hsettings⟩
    | written k a =>
        obtain ⟨_, _, rfl, _⟩ := hf
        exact ⟨.same, rfl⟩

/-- The name that a spelling stands for on the left side of a statement. -/
def folded (name : String) : String :=
  String.ofList (fold name.toList)

theorem run_register_error {s : Session W} {name : String} {e : StatementError}
    (hc : s.checkNewName (folded name) = .error e) (a : Accessor W) (h : Host W) :
    (s.register name a).run h = ((.error e, s), h) := by
  unfold register
  rw [← folded]
  dsimp only
  rw [hc]
  rfl

theorem run_register_ok {s : Session W} {name : String}
    (hc : s.checkNewName (folded name) = .ok ()) (a : Accessor W) (h : Host W) :
    ∃ t, t.entries = s.table.entries ++ [(Table.key (folded name), .accessor a)] ∧
      (s.register name a).run h =
        ((.ok (), { s with table := t }), h.record [.registered (folded name)]) := by
  have hfree := find?_of_checkNewName hc
  refine ⟨s.table.add (Table.key (folded name)) (.accessor a) hfree, rfl, ?_⟩
  unfold register
  rw [← folded]
  dsimp only
  rw [hc]
  dsimp only
  split
  next e he =>
    rw [Table.insertAccessor, Table.insert] at he
    split at he
    · cases he
    · rename_i hsome
      rw [hfree] at hsome
      cases hsome
  next t he =>
    rw [Table.insertAccessor, Table.insert] at he
    split at he
    · cases he
      rfl
    · cases he

/-- A registration that fails changes nothing; one that succeeds adds an accessor. -/
theorem register_cases (s : Session W) (name : String) (a : Accessor W) (h : Host W) :
    (∃ e, (s.register name a).run h = ((.error e, s), h)) ∨
    ∃ t, s.checkNewName (folded name) = .ok () ∧
      t.entries = s.table.entries ++ [(Table.key (folded name), .accessor a)] ∧
      (s.register name a).run h =
        ((.ok (), { s with table := t }), h.record [.registered (folded name)]) := by
  cases hc : s.checkNewName (folded name) with
  | error e => exact .inl ⟨e, run_register_error hc a h⟩
  | ok _ =>
      obtain ⟨t, ht, hrun⟩ := run_register_ok hc a h
      exact .inr ⟨t, rfl, ht, hrun⟩

theorem change_remove (s : Session W) (kind : Symbol W → Bool)
    (hkind : ∀ x, kind (.constant x) = false) (name : String) :
    s.Change (s.table.remove kind name).2 := by
  unfold Table.remove
  split
  · rename_i hany
    refine .kept fun k x hkx => ?_
    rw [bne_iff_ne]
    intro heq
    subst heq
    have hx : s.table.get name = some (.constant x) := Table.find?_eq_some_iff.mpr hkx
    rw [hx, Option.any_some, hkind] at hany
    cases hany
  · exact .same

theorem run_answer_evaluate (s : Session W) (statement : String) (h : Host W) :
    (s.answer (.evaluate statement)).run h =
      (((s.evaluate statement).run h).1.2, ((s.evaluate statement).run h).2) := by
  unfold answer
  dsimp only
  generalize s.evaluate statement = activity
  rfl

theorem run_answer_register (s : Session W) (name : String) (a : Accessor W) (h : Host W) :
    (s.answer (.register name a)).run h =
      (((s.register name a).run h).1.2, ((s.register name a).run h).2) := by
  unfold answer
  dsimp only
  generalize s.register name a = activity
  rfl

theorem accessor_of_register {s : Session W} {name k : String} {a b : Accessor W} {h : Host W}
    (hb : ((s.answer (.register name a)).run h).1.table.find? k = some (.accessor b)) :
    b = a ∨ s.table.find? k = some (.accessor b) := by
  rw [run_answer_register] at hb
  rcases register_cases s name a h with ⟨e, hout⟩ | ⟨t, _, ht, hout⟩
  · rw [hout] at hb
    exact .inr hb
  · rw [hout, Table.find?_eq_some_iff, ht, List.mem_append, List.mem_singleton] at hb
    rcases hb with hold | hnew
    · exact .inr (Table.find?_eq_some_iff.mpr hold)
    · exact .inl (Symbol.accessor.inj (Prod.mk.inj hnew).2)

/-- What a call does to the table. The settings stay as they are. -/
theorem change_answer (s : Session W) (c : Call W) (h : Host W) :
    s.Change ((s.answer c).run h).1.table ∧
      ((s.answer c).run h).1.settings = s.settings := by
  cases c with
  | evaluate statement => exact change_evaluate s statement h
  | register name a =>
      rw [run_answer_register]
      rcases register_cases s name a h with ⟨e, hout⟩ | ⟨t, hc, ht, hout⟩
      · rw [hout]
        exact ⟨.same, rfl⟩
      · rw [hout]
        exact ⟨.added hc (.inr rfl) ht, rfl⟩
  | unregister name => exact ⟨change_remove s _ (fun _ => rfl) name, rfl⟩
  | removeVariable name => exact ⟨change_remove s _ (fun _ => rfl) name, rfl⟩
  | clearVariables => exact ⟨.kept fun _ _ _ => rfl, rfl⟩
  | clearAccessors => exact ⟨.kept fun _ _ _ => rfl, rfl⟩

theorem isIdentifier_of_checkNewName {s : Session W} {name : String}
    (h : s.checkNewName name = .ok ()) : Token.Identifier name :=
  Token.isIdentifier_iff.mp (checkNewName_eq_ok_iff.mp h).2.1

end Session

theorem Token.Identifier.key {n : String} (h : Token.Identifier n) : Table.key n = n := by
  unfold Table.key
  dsimp only
  rw [Text.trim_eq_self h.isBlank, Text.lower_eq_self h.settled, ite_self,
    String.ofList_toList]

/-- Every name in the table reads back as itself. -/
def Table.Named (t : Table W) : Prop :=
  ∀ k ∈ t.entries.map Prod.fst, Token.Identifier k

theorem Table.Named.identifier {t : Table W} (ht : t.Named) {k : String}
    (hk : (t.find? k).isSome = true) : Token.Identifier k := by
  obtain ⟨symbol, hs⟩ := Option.isSome_iff_exists.mp hk
  exact ht k (List.mem_map.mpr ⟨(k, symbol), Table.find?_eq_some_iff.mp hs, rfl⟩)

theorem Table.Named.get {t : Table W} (ht : t.Named) {n : String}
    (hn : (t.find? n).isSome = true) : t.get n = t.find? n := by
  rw [Table.get, (ht.identifier hn).key]

theorem Table.Named.get_of_isName {t : Table W} (ht : t.Named) {n : String}
    (hn : Builtin.isName n = true) : t.get n = none := by
  have hkeys : ∀ f ∈ Builtin.all, ∀ m ∈ f.names, Table.key m = m := by
    decide +kernel
  have hkey := Builtin.of_isName hkeys hn
  rw [Table.get, hkey, ← Option.not_isSome_iff_eq_none]
  intro hk
  have hid := (ht.identifier hk).unreserved
  rw [hn] at hid
  cases hid

theorem Table.named_initial : (Table.initial : Table W).Named := by
  have hall : ∀ k ∈ Table.constants.map Prod.fst, Token.isIdentifier k = true := by
    decide +kernel
  intro k hk
  refine Token.isIdentifier_iff.mp (hall k ?_)
  simpa [Table.initial] using hk

namespace Session

theorem Change.named {s : Session W} {t : Table W} (h : s.Change t) (hs : s.table.Named) :
    t.Named := by
  cases h with
  | same => exact hs
  | added hname _ ht =>
      intro k hk
      have hid := isIdentifier_of_checkNewName hname
      rw [ht, List.map_append, List.mem_append] at hk
      rcases hk with hk | hk
      · exact hs k hk
      · obtain rfl : k = _ := List.mem_singleton.mp hk
        rw [hid.key]
        exact hid
  | replaced _ ht =>
      intro k hk
      rw [ht.names] at hk
      exact hs k hk
  | kept _ =>
      intro k hk
      obtain ⟨e, he, rfl⟩ := List.mem_map.mp hk
      exact hs _ (List.mem_map.mpr ⟨e, (List.mem_filter.mp he).1, rfl⟩)

theorem Reachable.named {s : Session W} (h : s.Reachable) : s.table.Named := by
  induction h with
  | create settings => exact Table.named_initial
  | call c h _ ih => exact (change_answer _ c h).1.named ih

end Session
end RuleSheet
