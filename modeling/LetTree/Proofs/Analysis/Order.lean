import LetTree.Binding
import LetTree.Proofs.Grammar.Acceptance
import LetTree.Proofs.Result

/-!
# The order of checks

The check of a tree is the check of a flat list: the bindings as they stand in the text, whatever
lists and functions they are nested in. Each is checked once, in this order, up to the first that
does not pass. For a program that was read from tokens these are the bindings that its `let` words
begin, none left out and none put elsewhere.
-/

namespace LetTree

namespace Node

mutual

/-- The bindings of a tree in the order of its text, each with its initializer. A binding is not
    entered, and nothing but statement lists and functions is searched. -/
def written : Node → List (Declaration × Node)
  | binding decl init => [(decl, init)]
  | statements items => writtenAll items
  | function _ _ _ body => writtenAll body
  | _ => []

def writtenAll : List Node → List (Declaration × Node)
  | [] => []
  | n :: ns => n.written ++ writtenAll ns

end

mutual

/-- The bindings of a tree are checked one after the other. -/
theorem bindings_eq_mapM : (n : Node) → n.bindings = n.written.mapM fun w => w.1.check w.2
  | binding decl init => by simp [bindings, written]
  | statements items => by rw [bindings, written, bindingsAll_eq_mapM items]
  | function name returns params body => by rw [bindings, written, bindingsAll_eq_mapM body]
  | value v => by simp [bindings, written]
  | binary op left right => by simp [bindings, written]
  | reserved what => by simp [bindings, written]
  | declaration decl => by simp [bindings, written]
  | declarations decls => by simp [bindings, written]

theorem bindingsAll_eq_mapM :
    (ns : List Node) → bindingsAll ns = (writtenAll ns).mapM fun w => w.1.check w.2
  | [] => by simp [bindingsAll, writtenAll]
  | n :: ns => by
    simp [bindingsAll, writtenAll, bindings_eq_mapM n, bindingsAll_eq_mapM ns, List.mapM_append]

end

end Node

/-- A binding keeps its name. -/
theorem Declaration.name_of_check {decl : Declaration} {init : Node} {b : Binding}
    (h : decl.check init = .ok b) : b.name = decl.name := by
  simp only [check, Result.bind_eq_ok_iff] at h
  obtain ⟨found, -, ty, -, h⟩ := h
  cases ty with
  | int =>
    obtain ⟨n, -, hb⟩ := Result.bind_eq_ok_iff.mp h
    cases hb
    rfl
  | string =>
    simp only at h
    split at h
    · next s hs =>
      cases h
      rfl
    · next hs =>
      cases h
      rfl
  | void | auto =>
    cases h
    rfl

theorem map_name_of_checked {ws : List (Declaration × Node)} {bs : List Binding}
    (h : List.Forall₂ (fun w b => w.1.check w.2 = .ok b) ws bs) :
    bs.map (·.name) = ws.map (·.1.name) := by
  induction h with
  | nil => rfl
  | cons hcheck _ ih => simp [Declaration.name_of_check hcheck, ih]

/-! ### The words of a program -/

/-- What comes right after each `let` of a list of tokens. -/
def Token.afterLets : List Token → List (Option Token)
  | [] => []
  | t :: ts => if t = .letWord then ts.head? :: afterLets ts else afterLets ts

namespace Token

theorem length_afterLets (ts : List Token) : (afterLets ts).length = ts.count .letWord := by
  induction ts with
  | nil => rfl
  | cons t ts ih =>
    by_cases ht : t = .letWord
    · simp [afterLets, ht, ih]
    · simp [afterLets, ht, ih]

theorem afterLets_append {ts : List Token} (h : .letWord ∉ ts) (us : List Token) :
    afterLets (ts ++ us) = afterLets us := by
  induction ts with
  | nil => rfl
  | cons t ts ih =>
    simp only [List.mem_cons, not_or] at h
    simp [afterLets, Ne.symm h.1, ih h.2]

end Token

namespace Grammar

open Token

/-- The tokens of `ns` introduce its bindings by their names, whatever comes after. -/
def Introduces (ts : List Token) (ns : List (Declaration × Node)) : Prop :=
  ∀ rest, afterLets (ts ++ rest) =
    (ns.map fun w => some (.identifier w.1.name)) ++ afterLets rest

theorem Expression.letWord_not_mem {k : Nat} {ts : List Token} {e : Node}
    (h : Expression k ts e) : .letWord ∉ ts := by
  induction h with
  | integer | negated | string => simp
  | group inner ih => simpa using ih
  | tighter hk he ih => exact ih
  | leftward hk hop hl hr ihl ihr => simp [ihl, ihr]
  | rightward hl hr ihl ihr => simp [ihl, ihr]

theorem Parameters.letWord_not_mem {ts : List Token} {ps : List Declaration}
    (h : Parameters ts ps) : .letWord ∉ ts := by
  induction h with
  | last => simp
  | more hs ih => simpa using ih

theorem Let.introduces {ts : List Token} {n : Node} (h : Let (Expression 0) ts n) :
    Introduces ts n.written := by
  cases h with
  | @intro name ty us e he =>
    intro rest
    have hrest := afterLets_append he.letWord_not_mem (.semicolon :: rest)
    simp [afterLets, Node.written, hrest]

theorem Star.introduces {G : List Token → Node → Prop}
    (hG : ∀ us n, G us n → Introduces us n.written) {ts : List Token} {ns : List Node}
    (h : Star G ts ns) : Introduces ts (Node.writtenAll ns) := by
  induction h with
  | nil =>
    intro rest
    rfl
  | cons h hs ih =>
    intro rest
    rw [List.append_assoc, hG _ _ h, ih, Node.writtenAll, List.map_append, List.append_assoc]

theorem Function.introduces {ts : List Token} {n : Node} (h : Function (Expression 0) ts n) :
    Introduces ts n.written := by
  cases h with
  | @intro name ty ps body pts rts bts hps hty hbody =>
    intro rest
    have hparams : .letWord ∉ pts := by
      cases hps with
      | empty => simp
      | listed h => exact h.letWord_not_mem
    have hreturns : .letWord ∉ rts := by
      cases hty with
      | absent => simp
      | present => simp
    have hinside := hbody.introduces (fun _ _ => Let.introduces) (.rightBrace :: rest)
    simp [afterLets, Node.written, afterLets_append hparams, afterLets_append hreturns, hinside]

theorem Sentence.introduces {ts : List Token} {root : Node} (h : Sentence ts root) :
    Introduces ts root.written := by
  cases h with
  | intro hitems =>
    refine hitems.introduces ?_
    rintro us n (hlet | hfn)
    · exact hlet.introduces
    · exact hfn.introduces

end Grammar

/-- **Every binding is checked once and in order.**  The bindings of a tree are checked as they
    stand in its text: all of them pass and the results come in the same order, or the first one
    that does not pass decides how the check ends, whatever stands after it. If the tree was read
    from tokens and passes, there are as many results as `let` words, and their names are those
    that follow these words, in order. -/
theorem bindings_checked_in_order (root : Node) :
    (∀ bs, root.bindings = .ok bs ↔
      List.Forall₂ (fun w b => w.1.check w.2 = .ok b) root.written bs) ∧
    (∀ halt, root.bindings = .error halt ↔ ∃ before w after, root.written = before ++ w :: after ∧
      (∀ v ∈ before, ∃ b, v.1.check v.2 = .ok b) ∧ w.1.check w.2 = .error halt) ∧
    (∀ other before w after after' halt, root.written = before ++ w :: after →
      Node.written other = before ++ w :: after' → w.1.check w.2 = .error halt →
        root.bindings = other.bindings) ∧
    ∀ limit tokens bs, parse limit tokens = .ok root → root.bindings = .ok bs →
      bs.length = (tokens.map Token.Placed.token).count .letWord ∧
        Token.afterLets (tokens.map Token.Placed.token) =
          bs.map fun b => some (.identifier b.name) := by
  rw [root.bindings_eq_mapM]
  refine ⟨fun bs => Result.mapM_eq_ok_iff, fun halt => Result.mapM_eq_error_iff, ?_, ?_⟩
  · intro other before w after after' halt hroot hother hfails
    have hstop :=
      Result.mapM_append_cons_of_error (f := fun w : Declaration × Node => w.1.check w.2) hfails
        before
    rw [hroot, other.bindings_eq_mapM, hother, hstop, hstop]
  · intro limit tokens bs hparse hbindings
    have hnames := map_name_of_checked (Result.mapM_eq_ok_iff.mp hbindings)
    have hwords := (sentence_of_parse hparse).introduces []
    have hafter : Token.afterLets (tokens.map Token.Placed.token) =
        bs.map fun b => some (.identifier b.name) := by
      calc Token.afterLets (tokens.map Token.Placed.token)
          = root.written.map fun w => some (.identifier w.1.name) := by
            simpa [Token.afterLets] using hwords
        _ = (bs.map (·.name)).map fun name => some (.identifier name) := by
            rw [hnames, List.map_map]
            rfl
        _ = bs.map fun b => some (.identifier b.name) := by
            rw [List.map_map]
            rfl
    refine ⟨?_, hafter⟩
    rw [← Token.length_afterLets, hafter, List.length_map]

/-- `fn f() { let s: auto = "x"; } let q: int = 7;` has the names of both bindings; and an operator
    without meaning after a division by zero is never met. -/
theorem bindings_checked_in_order_function :
    let tokens : List Token.Placed :=
      [⟨.fnWord, ⟨0, 2⟩⟩, ⟨.identifier "f", ⟨3, 4⟩⟩, ⟨.leftParen, ⟨4, 5⟩⟩, ⟨.rightParen, ⟨5, 6⟩⟩,
        ⟨.leftBrace, ⟨7, 8⟩⟩, ⟨.letWord, ⟨9, 12⟩⟩, ⟨.identifier "s", ⟨13, 14⟩⟩, ⟨.colon, ⟨14, 15⟩⟩,
        ⟨.type .auto, ⟨16, 20⟩⟩, ⟨.equals, ⟨21, 22⟩⟩, ⟨.string "x", ⟨23, 26⟩⟩,
        ⟨.semicolon, ⟨26, 27⟩⟩, ⟨.rightBrace, ⟨28, 29⟩⟩, ⟨.letWord, ⟨30, 33⟩⟩,
        ⟨.identifier "q", ⟨34, 35⟩⟩, ⟨.colon, ⟨35, 36⟩⟩, ⟨.type .int, ⟨37, 40⟩⟩,
        ⟨.equals, ⟨41, 42⟩⟩, ⟨.integer 7, ⟨43, 44⟩⟩, ⟨.semicolon, ⟨44, 45⟩⟩]
    let fails : Node :=
      .binding ⟨.int, "z"⟩ (.binary .div (.value (.int 1)) (.value (.int 0)))
    let unmet : Node :=
      .binding ⟨.int, "u"⟩ (.binary .unknown (.value (.int 1)) (.value (.int 2)))
    (∃ root bs, parse 2 tokens = .ok root ∧ root.bindings = .ok bs ∧
      Token.afterLets (tokens.map Token.Placed.token) =
        bs.map fun b => some (.identifier b.name)) ∧
    (Node.statements [fails, unmet]).bindings = fails.bindings := by
  intro tokens fails unmet
  have hparse : parse 2 tokens = .ok (.statements
      [.function "f" .void [] [.binding ⟨.auto, "s"⟩ (.value (.string "x"))],
        .binding ⟨.int, "q"⟩ (.value (.int 7))]) := by
    with_unfolding_all rfl
  refine ⟨⟨_, [⟨"s", .string, .string "x"⟩, ⟨"q", .int, .int 7⟩], hparse, rfl, ?_⟩, ?_⟩
  · exact ((bindings_checked_in_order _).2.2.2 2 tokens _ hparse rfl).2
  · exact (bindings_checked_in_order (.statements [fails, unmet])).2.2.1 fails [] _
      [(⟨.int, "u"⟩, .binary .unknown (.value (.int 1)) (.value (.int 2)))] []
      (.error ⟨"z", .fold (.arithmetic .divisionByZero)⟩) rfl rfl rfl

end LetTree
