import LetTree.Binding
import LetTree.Proofs.Grammar.Acceptance

/-!
# Accepted programs are safe to analyse

A tree that comes from tokens has a narrow shape: a list of bindings and functions whose
initializers are made of integers, strings and known operators. On such a tree the check of bindings
never meets an operator without meaning, it fails only for reasons that lie in the program, and
every binding it returns has a type and a value of that type.

The link between the three analyses is that an expression of this kind which has the type `int` is
made of integers alone, so that folding it can fail in arithmetic only.
-/

namespace LetTree

namespace Node

/-! ### Shapes -/

/-- An expression made of constants of a kind and of known operators. -/
inductive BuiltFrom (leaf : Value → Prop) : Node → Prop where
  | value {v : Value} (h : leaf v) : BuiltFrom leaf (.value v)
  | binary {op : Operator} {l r : Node} (hop : op.known = true) (hl : BuiltFrom leaf l)
      (hr : BuiltFrom leaf r) : BuiltFrom leaf (.binary op l r)

/-- The constants that literals denote. -/
def Literal (v : Value) : Prop := (∃ n, v = .int n) ∨ ∃ s, v = .string s

/-- A binding with an initializer made of literals. -/
inductive IsBinding : Node → Prop where
  | intro {decl : Declaration} {init : Node} (h : BuiltFrom Literal init) :
      IsBinding (.binding decl init)

/-- A binding, or a function with distinct parameters and only bindings in its body. -/
inductive IsItem : Node → Prop where
  | binding {n : Node} (h : IsBinding n) : IsItem n
  | function {name : String} {ty : Ty} {params : List Declaration} {body : List Node}
      (hparams : (params.map (·.name)).Nodup) (hbody : ∀ n ∈ body, IsBinding n) :
      IsItem (.function name ty params body)

/-- A list of bindings and functions. -/
inductive IsProgram : Node → Prop where
  | intro {items : List Node} (h : ∀ n ∈ items, IsItem n) : IsProgram (.statements items)

end Node

namespace Grammar

theorem Expression.builtFrom {k : Nat} {ts : List Token} {e : Node} (h : Expression k ts e) :
    e.BuiltFrom Node.Literal := by
  induction h with
  | integer hrange hi => exact .value (.inl ⟨_, rfl⟩)
  | negated hrange hi => exact .value (.inl ⟨_, rfl⟩)
  | string s => exact .value (.inr ⟨s, rfl⟩)
  | group inner ih => exact ih
  | tighter hk he ih => exact ih
  | @leftward k op ls rs l r hk hop hl hr ihl ihr =>
    refine .binary ?_ ihl ihr
    cases op <;> first | rfl | (simp only [Operator.precedence] at hop; omega)
  | rightward hl hr ihl ihr => exact .binary rfl ihl ihr

theorem Star.exists_of_mem {G : List Token → Node → Prop} {ts : List Token} {ns : List Node}
    (h : Star G ts ns) {n : Node} (hn : n ∈ ns) : ∃ us, G us n := by
  induction h with
  | nil => cases hn
  | cons h hs ih =>
    rcases List.mem_cons.mp hn with rfl | hn
    · exact ⟨_, h⟩
    · exact ih hn

theorem Let.isBinding {ts : List Token} {n : Node} (h : Let (Expression 0) ts n) :
    n.IsBinding := by
  cases h with
  | intro he => exact .intro he.builtFrom

theorem Signature.nodup {ts : List Token} {ps : List Declaration} (h : Signature ts ps) :
    (ps.map (·.name)).Nodup := by
  cases h with
  | empty => exact List.nodup_nil
  | listed h distinct => exact distinct

theorem Item.isItem {ts : List Token} {n : Node} (h : Item (Expression 0) ts n) : n.IsItem := by
  rcases h with hlet | hfn
  · exact .binding hlet.isBinding
  · cases hfn with
    | intro hps hty hbody =>
      refine .function hps.nodup ?_
      intro n hn
      obtain ⟨us, hlet⟩ := hbody.exists_of_mem hn
      exact hlet.isBinding

theorem Sentence.isProgram {ts : List Token} {root : Node} (h : Sentence ts root) :
    root.IsProgram := by
  cases h with
  | intro hitems =>
    refine .intro ?_
    intro n hn
    obtain ⟨us, hitem⟩ := hitems.exists_of_mem hn
    exact hitem.isItem

end Grammar

/-! ### Types and values of expressions -/

/-- Folding has a value or fails in arithmetic. -/
def FoldsOrFails (r : Folded) : Prop :=
  (∃ n, r = .ok n) ∨ ∃ a, r = .error (.error (.arithmetic a))

theorem FoldsOrFails.bind {r : Folded} {f : Int64 → Folded} (hr : FoldsOrFails r)
    (hf : ∀ n, FoldsOrFails (f n)) : FoldsOrFails (r >>= f) := by
  rcases hr with ⟨n, rfl⟩ | ⟨a, rfl⟩
  · exact hf n
  · exact .inr ⟨a, rfl⟩

namespace Operator

theorem apply_of_known {op : Operator} (hop : op.known = true) (lhs rhs : Int64) :
    (∃ n, op.apply lhs rhs = .ok n) ∨ ∃ a, op.apply lhs rhs = .error (.error a) := by
  have houtcome : ∀ r : Except ArithmeticError Int64,
      (∃ n, r.mapError Halt.error = .ok n) ∨ ∃ a, r.mapError Halt.error = .error (.error a) := by
    intro r
    cases r with
    | ok n => exact .inl ⟨n, rfl⟩
    | error a => exact .inr ⟨a, rfl⟩
  cases op with
  | unknown => cases hop
  | add | sub | mul | shr | shl | power => exact houtcome _
  | logicalAnd | logicalOr | bitOr | bitAnd | bitXor => exact .inl ⟨_, rfl⟩
  | div =>
    simp only [apply]
    split
    · exact .inr ⟨_, rfl⟩
    · exact houtcome _
  | mod =>
    simp only [apply]
    split
    · exact .inr ⟨_, rfl⟩
    · split
      · exact .inl ⟨_, rfl⟩
      · exact .inr ⟨_, rfl⟩

theorem fold_of_known {op : Operator} (hop : op.known = true) (lhs rhs : Int64) :
    FoldsOrFails (op.fold lhs rhs) := by
  rcases apply_of_known hop lhs rhs with ⟨n, h⟩ | ⟨a, h⟩
  · rw [fold, h]
    exact .inl ⟨n, rfl⟩
  · rw [fold, h]
    exact .inr ⟨a, rfl⟩

end Operator

namespace Node

theorem typeOf_binary_eq_ok {op : Operator} {l r : Node} {ty : Ty}
    (h : (binary op l r).typeOf = .ok ty) : l.typeOf = .ok ty ∧ r.typeOf = .ok ty := by
  cases hl : l.typeOf with
  | error e => simp [typeOf, hl, bind, Except.bind] at h
  | ok a =>
    cases hr : r.typeOf with
    | error e => simp [typeOf, hl, hr, bind, Except.bind] at h
    | ok b =>
      by_cases hab : a = b
      · subst hab
        simp only [typeOf, hl, hr, bind, Except.bind, if_true, pure, Except.pure] at h
        exact ⟨h, h⟩
      · simp [typeOf, hl, hr, bind, Except.bind, hab, throw, throwThe, MonadExceptOf.throw] at h

/-- An expression made of constants has the type of one of them, or its operands disagree. -/
theorem BuiltFrom.typeOf_cases {leaf : Value → Prop} {e : Node} (h : e.BuiltFrom leaf) :
    (∃ v, leaf v ∧ e.typeOf = .ok v.ty) ∨ ∃ op l r, e.typeOf = .error (.mismatch op l r) := by
  induction h with
  | @value v hv => exact .inl ⟨v, hv, rfl⟩
  | @binary op l r hop hl hr ihl ihr =>
    rcases ihl with ⟨v, hv, hvty⟩ | ⟨o, a, b, herr⟩
    · rcases ihr with ⟨w, hw, hwty⟩ | ⟨o, a, b, herr⟩
      · by_cases hty : v.ty = w.ty
        · exact .inl ⟨v, hv, by simp [typeOf, hvty, hwty, hty, bind, Except.bind, pure,
            Except.pure]⟩
        · exact .inr ⟨op, v.ty, w.ty, by simp [typeOf, hvty, hwty, hty, bind, Except.bind, throw,
            throwThe, MonadExceptOf.throw]⟩
      · exact .inr ⟨o, a, b, by simp [typeOf, hvty, herr, bind, Except.bind]⟩
    · exact .inr ⟨o, a, b, by simp [typeOf, herr, bind, Except.bind]⟩

/-- An expression of type `int` is made of integers, so that folding it fails in arithmetic only. -/
theorem BuiltFrom.fold_of_int {leaf : Value → Prop} {e : Node} (h : e.BuiltFrom leaf)
    (hty : e.typeOf = .ok .int) : FoldsOrFails e.fold := by
  induction h with
  | @value v hv =>
    cases v with
    | int n => exact .inl ⟨n, rfl⟩
    | string s => cases hty
    | void => cases hty
    | auto => cases hty
  | @binary op l r hop hl hr ihl ihr =>
    obtain ⟨hlty, hrty⟩ := typeOf_binary_eq_ok hty
    have hleft := ihl hlty
    have hright := ihr hrty
    have happly := Operator.fold_of_known hop
    rw [Node.fold]
    -- Whichever operand is looked at first, both fold.
    split
    · next lv rv hlv hrv =>
      rw [fold_of_value? hlv, fold_of_value? hrv]
      exact hleft.bind fun a => hright.bind fun b => happly a b
    · next lv hlv hrv =>
      rw [fold_of_value? hlv]
      exact hleft.bind fun a => hright.bind fun b => happly a b
    · next rv hlv hrv =>
      rw [fold_of_value? hrv]
      exact hright.bind fun b => hleft.bind fun a => happly a b
    · exact hleft.bind fun a => hright.bind fun b => happly a b

end Node

/-! ### Checked bindings -/

/-- The faults of a program: operands or a declaration of the wrong type, and arithmetic. -/
def BindingFault.InProgram (f : BindingFault) : Prop :=
  (∃ op l r, f = .type (.mismatch op l r)) ∨ (∃ declared found, f = .declared declared found) ∨
    ∃ a : ArithmeticError, f = .fold (.arithmetic a)

/-- A binding of one of the two types that have values, with a value of that type. A string may be
    known without its text. -/
def Binding.Settled (b : Binding) : Prop :=
  (b.ty = .int ∧ ∃ n, b.value = .int n) ∨
    b.ty = .string ∧ ((∃ s, b.value = .string s) ∨ b.value = .computed)

/-- A check that ends with results of a kind or with a fault of the program, and in no other way. -/
def Checked.Safe {α : Type} (good : α → Prop) : Checked α → Prop
  | .ok a => good a
  | .error (.error e) => e.fault.InProgram
  | .error .unknownOperator => False

theorem Checked.Safe.bind {α β : Type} {p : α → Prop} {q : β → Prop} {r : Checked α}
    {f : α → Checked β} (hr : Safe p r) (hf : ∀ a, p a → Safe q (f a)) :
    Safe q (r >>= f) := by
  cases r with
  | ok a => exact hf a hr
  | error e => cases e <;> exact hr

theorem Declaration.check_safe (decl : Declaration) {init : Node}
    (h : init.BuiltFrom Node.Literal) : Checked.Safe Binding.Settled (decl.check init) := by
  rw [Declaration.check]
  rcases h.typeOf_cases with ⟨v, hv, hty⟩ | ⟨op, l, r, herr⟩
  · rw [hty]
    refine Checked.Safe.bind (p := fun ty => ty = v.ty) rfl ?_
    rintro _ rfl
    refine Checked.Safe.bind (p := fun ty => ty = v.ty) ?_ ?_
    · rw [Declaration.settle]
      split
      · rfl
      · exact .inr (.inl ⟨_, _, rfl⟩)
    · rintro _ rfl
      rcases hv with ⟨n, rfl⟩ | ⟨s, rfl⟩
      · rcases h.fold_of_int hty with ⟨m, hfold⟩ | ⟨a, hfold⟩
        · rw [hfold]
          exact .inl ⟨rfl, m, rfl⟩
        · rw [hfold]
          exact .inr (.inr ⟨a, rfl⟩)
      · simp only [Value.ty]
        split
        · exact .inr ⟨rfl, .inl ⟨_, rfl⟩⟩
        · exact .inr ⟨rfl, .inr rfl⟩
  · rw [herr]
    exact .inl ⟨op, l, r, rfl⟩

namespace Node

/-- A list of trees is safe to check if each of them is. -/
theorem bindingsAll_safe {ns : List Node} (h : ∀ n ∈ ns,
      Checked.Safe (fun bs => ∀ b ∈ bs, b.Settled) n.bindings) :
    Checked.Safe (fun bs => ∀ b ∈ bs, b.Settled) (bindingsAll ns) := by
  induction ns with
  | nil =>
    intro b hb
    cases hb
  | cons n ns ih =>
    rw [bindingsAll]
    refine (h n List.mem_cons_self).bind ?_
    intro first hfirst
    refine (ih fun m hm => h m (List.mem_cons_of_mem _ hm)).bind ?_
    intro others hothers b hb
    rcases List.mem_append.mp hb with hb | hb
    · exact hfirst b hb
    · exact hothers b hb

theorem IsBinding.bindings_safe {n : Node} (h : n.IsBinding) :
    Checked.Safe (fun bs => ∀ b ∈ bs, b.Settled) n.bindings := by
  cases h with
  | @intro decl init h =>
    rw [bindings]
    refine (decl.check_safe h).bind ?_
    intro b hb c hc
    rw [List.mem_singleton.mp hc]
    exact hb

theorem IsItem.bindings_safe {n : Node} (h : n.IsItem) :
    Checked.Safe (fun bs => ∀ b ∈ bs, b.Settled) n.bindings := by
  cases h with
  | binding h => exact h.bindings_safe
  | function hparams hbody =>
    rw [bindings]
    exact bindingsAll_safe fun n hn => (hbody n hn).bindings_safe

theorem IsProgram.bindings_safe {n : Node} (h : n.IsProgram) :
    Checked.Safe (fun bs => ∀ b ∈ bs, b.Settled) n.bindings := by
  cases h with
  | intro h =>
    rw [bindings]
    exact bindingsAll_safe fun n hn => (h n hn).bindings_safe

end Node

/-- **Accepted programs are safe to analyse.**  At every limit, what is accepted is a list of
    bindings and functions made of literals and known operators; checking its bindings never meets
    an operator without meaning, fails only with a fault of the program, and returns only bindings
    that have a type and a value of that type. -/
theorem parse_ok_safe (limit : Nat) (tokens : List Token.Placed) (root : Node)
    (h : parse limit tokens = .ok root) :
    root.IsProgram ∧ root.bindings ≠ .error .unknownOperator ∧
      (∀ e, root.bindings = .error (.error e) → e.fault.InProgram) ∧
      ∀ bs, root.bindings = .ok bs → ∀ b ∈ bs, b.Settled := by
  have hprogram := (sentence_of_parse h).isProgram
  have hsafe := hprogram.bindings_safe
  refine ⟨hprogram, ?_, ?_, ?_⟩
  · intro hunknown
    rw [hunknown] at hsafe
    exact hsafe
  · intro e herror
    rw [herror] at hsafe
    exact hsafe
  · intro bs hok
    rw [hok] at hsafe
    exact hsafe

/-- `fn f(a: int, b: string) { let s: auto = "x" + "y"; } let q: int = 7 / 0;`: a string that is not
    a constant, and a division that has no value. -/
theorem parse_ok_safe_division :
    (Node.statements
      [.function "f" .void [⟨.int, "a"⟩, ⟨.string, "b"⟩]
        [.binding ⟨.auto, "s"⟩
          (.binary .add (.value (.string "x")) (.value (.string "y")))],
        .binding ⟨.int, "q"⟩ (.binary .div (.value (.int 7)) (.value (.int 0)))]).IsProgram := by
  have hparse : parse 2
      [⟨.fnWord, ⟨0, 2⟩⟩, ⟨.identifier "f", ⟨3, 4⟩⟩, ⟨.leftParen, ⟨4, 5⟩⟩,
        ⟨.identifier "a", ⟨5, 6⟩⟩, ⟨.colon, ⟨6, 7⟩⟩, ⟨.type .int, ⟨8, 11⟩⟩, ⟨.comma, ⟨11, 12⟩⟩,
        ⟨.identifier "b", ⟨13, 14⟩⟩, ⟨.colon, ⟨14, 15⟩⟩, ⟨.type .string, ⟨16, 22⟩⟩,
        ⟨.rightParen, ⟨22, 23⟩⟩, ⟨.leftBrace, ⟨24, 25⟩⟩, ⟨.letWord, ⟨26, 29⟩⟩,
        ⟨.identifier "s", ⟨30, 31⟩⟩, ⟨.colon, ⟨31, 32⟩⟩, ⟨.type .auto, ⟨33, 37⟩⟩,
        ⟨.equals, ⟨38, 39⟩⟩, ⟨.string "x", ⟨40, 43⟩⟩, ⟨.operator "+", ⟨44, 45⟩⟩,
        ⟨.string "y", ⟨46, 49⟩⟩, ⟨.semicolon, ⟨49, 50⟩⟩, ⟨.rightBrace, ⟨51, 52⟩⟩,
        ⟨.letWord, ⟨53, 56⟩⟩, ⟨.identifier "q", ⟨57, 58⟩⟩, ⟨.colon, ⟨58, 59⟩⟩,
        ⟨.type .int, ⟨60, 63⟩⟩, ⟨.equals, ⟨64, 65⟩⟩, ⟨.integer 7, ⟨66, 67⟩⟩,
        ⟨.operator "/", ⟨68, 69⟩⟩, ⟨.integer 0, ⟨70, 71⟩⟩, ⟨.semicolon, ⟨71, 72⟩⟩] =
      .ok (.statements
        [.function "f" .void [⟨.int, "a"⟩, ⟨.string, "b"⟩]
          [.binding ⟨.auto, "s"⟩ (.binary .add (.value (.string "x")) (.value (.string "y")))],
          .binding ⟨.int, "q"⟩ (.binary .div (.value (.int 7)) (.value (.int 0)))]) := by
    with_unfolding_all rfl
  exact (parse_ok_safe _ _ _ hparse).1

end LetTree
