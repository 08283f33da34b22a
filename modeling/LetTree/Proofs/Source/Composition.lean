import Mathlib.Data.List.Chain
import LetTree.Binding
import LetTree.Proofs.Grammar.Acceptance
import LetTree.Proofs.Grammar.Relocation
import LetTree.Proofs.Token.Join

/-!
# Composition of sources

A program followed by a line feed and another source behaves as the two in sequence: for the reader
of tokens, for the grammar and for the check of bindings. The grammar enters twice. It never lets
`/` and `*` meet, so that no block comment is open at the end of a program; and after every item the
grammar reader is back where it started, so that it goes on with the second source as it would
alone.
-/

namespace LetTree

/-! ### Operators that never meet -/

namespace Grammar

/-- Tokens without the operators `/` and `*` in sequence, even when others of this kind come before
    or after them. -/
structure Unopened (ts : List Token) : Prop where
  chain : ts.IsChain fun a b => ¬ (a = .operator "/" ∧ b = .operator "*")
  first : ts.head? ≠ some (.operator "*")
  last : ts.getLast? ≠ some (.operator "/")

namespace Unopened

variable {ts us : List Token}

theorem nil : Unopened [] := ⟨.nil, nofun, nofun⟩

theorem append (ht : Unopened ts) (hu : Unopened us) : Unopened (ts ++ us) := by
  refine ⟨List.isChain_append.mpr ⟨ht.chain, hu.chain, ?_⟩, ?_, ?_⟩
  · rintro a ha b - ⟨rfl, -⟩
    exact ht.last ha
  · rw [List.head?_append]
    cases hhead : ts.head? with
    | none => exact hu.first
    | some t =>
      rw [Option.some_or, ← hhead]
      exact ht.first
  · rw [List.getLast?_append]
    cases hlast : us.getLast? with
    | none => exact ht.last
    | some t =>
      rw [Option.some_or, ← hlast]
      exact hu.last

theorem singleton {t : Token} (ht : ∀ text, t ≠ .operator text) : Unopened [t] := by
  refine ⟨.singleton t, ?_, ?_⟩
  · rintro ⟨⟩
    exact ht "*" rfl
  · rintro ⟨⟩
    exact ht "/" rfl

theorem cons {t : Token} (ht : ∀ text, t ≠ .operator text) (hts : Unopened ts) :
    Unopened (t :: ts) :=
  (singleton ht).append hts

/-- An operator between operands has an operand on either side. -/
theorem operation (ht : Unopened ts) (hu : Unopened us) (htne : ts ≠ []) (hune : us ≠ [])
    (text : String) : Unopened (ts ++ .operator text :: us) := by
  refine ⟨List.isChain_append.mpr ⟨ht.chain, ?_, ?_⟩, ?_, ?_⟩
  · cases us with
    | nil => exact absurd rfl hune
    | cons u us =>
      refine List.isChain_cons_cons.mpr ⟨?_, hu.chain⟩
      rintro ⟨-, rfl⟩
      exact hu.first rfl
  · rintro a ha b - ⟨rfl, -⟩
    exact ht.last ha
  · rw [List.head?_append_of_ne_nil _ htne]
    exact ht.first
  · rw [List.getLast?_append_of_ne_nil _ (List.cons_ne_nil _ _), List.getLast?_cons_of_ne_nil hune]
    exact hu.last

theorem not_meet (h : Unopened ts) : ¬ [.operator "/", .operator "*"] <:+: ts := by
  intro hmeet
  have hchain := List.IsChain.infix h.chain hmeet
  exact List.isChain_pair.mp hchain ⟨rfl, rfl⟩

end Unopened

theorem Expression.unopened {k : Nat} {ts : List Token} {e : Node} (h : Expression k ts e) :
    Unopened ts ∧ ts ≠ [] := by
  induction h with
  | integer => exact ⟨.singleton nofun, List.cons_ne_nil _ _⟩
  | @negated n =>
    have hminus : [Token.operator "-", .integer n].IsChain
        fun a b => ¬ (a = .operator "/" ∧ b = .operator "*") := List.isChain_pair.mpr nofun
    exact ⟨⟨hminus, by simp, nofun⟩, List.cons_ne_nil _ _⟩
  | string => exact ⟨.singleton nofun, List.cons_ne_nil _ _⟩
  | group _ ih => exact ⟨.cons nofun (ih.1.append (.singleton nofun)), List.cons_ne_nil _ _⟩
  | tighter _ _ ih => exact ih
  | leftward _ _ _ _ hl hr => exact ⟨hl.1.operation hr.1 hl.2 hr.2 _, by simp⟩
  | rightward _ _ hl hr => exact ⟨hl.1.operation hr.1 hl.2 hr.2 _, by simp⟩

theorem Let.unopened {ts : List Token} {n : Node} (h : Let (Expression 0) ts n) : Unopened ts := by
  cases h with
  | intro he =>
    exact .cons nofun (.cons nofun (.cons nofun (.cons nofun (.cons nofun
      (he.unopened.1.append (.singleton nofun))))))

theorem Star.unopened {G : List Token → Node → Prop} (hG : ∀ ts n, G ts n → Unopened ts)
    {ts : List Token} {ns : List Node} (h : Star G ts ns) : Unopened ts := by
  induction h with
  | nil => exact .nil
  | cons h _ ih => exact (hG _ _ h).append ih

theorem Parameters.unopened {ts : List Token} {ps : List Declaration} (h : Parameters ts ps) :
    Unopened ts := by
  induction h with
  | last => exact .cons nofun (.cons nofun (.singleton nofun))
  | more _ ih => exact .cons nofun (.cons nofun (.cons nofun (.cons nofun ih)))

theorem Function.unopened {ts : List Token} {n : Node} (h : Function (Expression 0) ts n) :
    Unopened ts := by
  cases h with
  | @intro name ty ps body pts rts bts hps hty hbody =>
    have hp : Unopened pts := by
      cases hps with
      | empty => exact .nil
      | listed h => exact h.unopened
    have hr : Unopened rts := by
      cases hty with
      | absent => exact .nil
      | present => exact .cons nofun (.singleton nofun)
    have hb : Unopened bts := hbody.unopened fun _ _ h => h.unopened
    exact .cons nofun (.cons nofun (.cons nofun (hp.append (.cons nofun (hr.append (.cons nofun
      (hb.append (.singleton nofun))))))))

theorem Sentence.unopened {ts : List Token} {root : Node} (h : Sentence ts root) :
    Unopened ts := by
  cases h with
  | intro hitems =>
    refine hitems.unopened ?_
    rintro us n (hlet | hfn)
    · exact hlet.unopened
    · exact hfn.unopened

end Grammar

/-! ### Programs -/

namespace Parse

/-- The items of a list of tokens. -/
def items (limit : Nat) (tokens : List Token.Placed) : Except ParseError (List Node) :=
  match many List.isEmpty item ⟨limit, 0, endOf tokens⟩ tokens with
  | .ok (ns, _) => .ok ns
  | .error stop => .error stop.error

theorem parse_eq_items (limit : Nat) (tokens : List Token.Placed) :
    parse limit tokens = (items limit tokens).map Node.statements := by
  rw [parse, items]
  cases hmany : many List.isEmpty item ⟨limit, 0, endOf tokens⟩ tokens with
  | ok r =>
    have hprogram : program ⟨limit, 0, endOf tokens⟩ tokens = .ok (.statements r.1, r.2) :=
      bind_of_ok hmany
    rw [hprogram]
    rfl
  | error stop =>
    have hprogram : program ⟨limit, 0, endOf tokens⟩ tokens = .error stop := bind_of_error hmany
    rw [hprogram]
    rfl

theorem parse_eq_ok_iff_items {limit : Nat} {tokens : List Token.Placed} {root : Node} :
    parse limit tokens = .ok root ↔ ∃ ns, root = .statements ns ∧ items limit tokens = .ok ns := by
  rw [parse_eq_items]
  cases items limit tokens with
  | ok ns => simp [Except.map, eq_comm]
  | error e => simp [Except.map]

theorem parse_eq_error_iff_items {limit : Nat} {tokens : List Token.Placed} {e : ParseError} :
    parse limit tokens = .error e ↔ items limit tokens = .error e := by
  rw [parse_eq_items]
  cases items limit tokens <;> simp [Except.map]

theorem star_of_items {limit : Nat} {tokens : List Token.Placed} {ns : List Node}
    (h : items limit tokens = .ok ns) (ending : Span) :
    Grammar.Star (Grammar.Item (Fitting ⟨limit, 0, ending⟩))
      (tokens.map Token.Placed.token) ns := by
  -- Whether an expression fits does not depend on where the tokens end.
  cases parse_eq_ok_iff.mp (parse_eq_ok_iff_items.mpr ⟨ns, rfl, h⟩) with
  | intro hstar => exact hstar

theorem many_items_append {limit : Nat} {us : List Token.Placed} {as : List Node}
    (h : items limit us = .ok as) (ending : Span) (ts : List Token.Placed) :
    many List.isEmpty item ⟨limit, 0, ending⟩ (us ++ ts) =
      (many List.isEmpty item ⟨limit, 0, ending⟩ ts).map fun r => (as ++ r.1, r.2) :=
  many_append item_exactly item_start (star_of_items h ending)

theorem items_nil (limit : Nat) : items limit [] = .ok [] := by
  rw [items, many]
  rfl

/-- Tokens that follow those of a program are read as they are alone, at their places. -/
theorem items_append {limit : Nat} {us : List Token.Placed} {as : List Node}
    (h : items limit us = .ok as) (ts : List Token.Placed) (k : Nat) :
    items limit (us ++ ts.map (·.relocate (Span.shift k))) =
      ((items limit ts).map (as ++ ·)).mapError (·.relocate (Span.shift k)) := by
  by_cases hts : ts = []
  · rw [hts, items_nil, List.map_nil, List.append_nil, h]
    change Except.ok as = Except.ok (as ++ [])
    rw [List.append_nil]
  · have hmoved : ts.map (·.relocate (Span.shift k)) ≠ [] := by simpa using hts
    have hrest := items_stable (Span.shift_respects k) ⟨limit, 0, endOf ts⟩ ts
    rw [Surroundings.relocate] at hrest
    rw [items, items, many_items_append h, endOf_append hmoved, endOf_shift hts, hrest]
    cases many List.isEmpty item ⟨limit, 0, endOf ts⟩ ts <;> rfl

end Parse

/-! ### Bindings -/

theorem Node.bindingsAll_append (as bs : List Node) :
    bindingsAll (as ++ bs) = do
      let xs ← bindingsAll as
      let ys ← bindingsAll bs
      return xs ++ ys := by
  induction as with
  | nil => simp [bindingsAll]
  | cons n ns ih =>
    simp only [List.cons_append, bindingsAll, ih, bind_assoc, pure_bind, List.append_assoc]

/-- **Sources compose.**  After a program and a line feed, a source has its own tokens, tree, errors
    and bindings, further on by the bytes before it and following those of the program. -/
theorem sources_compose {first : String} {limit : Nat} {ts : List Token.Placed} {as : List Node}
    (hlex : Token.lex first = .ok ts) (hparse : parse limit ts = .ok (.statements as))
    (second : String) :
    (∀ e, Token.lex second = .error e →
      Token.lex (first ++ "\n" ++ second) =
        .error (e.relocate (Span.shift (Text.bytes first.toList + 1)))) ∧
    ∀ us, Token.lex second = .ok us →
      ∃ joined, Token.lex (first ++ "\n" ++ second) = .ok joined ∧
        joined = ts ++ us.map (·.relocate (Span.shift (Text.bytes first.toList + 1))) ∧
        (∀ e, parse limit us = .error e →
          parse limit joined =
            .error (e.relocate (Span.shift (Text.bytes first.toList + 1)))) ∧
        ∀ root, parse limit us = .ok root →
          ∃ bs, root = .statements bs ∧ parse limit joined = .ok (.statements (as ++ bs)) ∧
            (Node.statements (as ++ bs)).bindings = (do
              let xs ← (Node.statements as).bindings
              let ys ← (Node.statements bs).bindings
              return xs ++ ys) := by
  have hjoin := Token.lex_join hlex (sentence_of_parse hparse).unopened.not_meet second
  obtain ⟨_, ⟨⟩, hitems⟩ := Parse.parse_eq_ok_iff_items.mp hparse
  refine ⟨?_, ?_⟩
  · intro e he
    rw [hjoin, he]
    rfl
  · intro us hus
    have happend := Parse.items_append hitems us (Text.bytes first.toList + 1)
    rw [hus] at hjoin
    refine ⟨_, hjoin, rfl, ?_, ?_⟩
    · intro e he
      rw [Parse.parse_eq_error_iff_items] at he ⊢
      rw [happend, he]
      rfl
    · intro root hroot
      obtain ⟨bs, rfl, hbs⟩ := Parse.parse_eq_ok_iff_items.mp hroot
      rw [hbs] at happend
      refine ⟨bs, rfl, Parse.parse_eq_ok_iff_items.mpr ⟨_, rfl, happend⟩, ?_⟩
      simp only [Node.bindings]
      exact Node.bindingsAll_append as bs

/-- What would open a block comment after `//` stays in its line, and the end of the second source,
    where a colon is missing, is reported at its place in the joined one. -/
theorem sources_compose_line_comment :
    ∃ joined, Token.lex ("let a: int = 7; // /*" ++ "\n" ++ "let b") = .ok joined ∧
      parse 9 joined = .error ⟨⟨27, 27⟩, .unexpected (.token .colon) none⟩ := by
  have hlex : Token.lex "let a: int = 7; // /*" =
      .ok [⟨.letWord, ⟨0, 3⟩⟩, ⟨.identifier "a", ⟨4, 5⟩⟩, ⟨.colon, ⟨5, 6⟩⟩, ⟨.type .int, ⟨7, 10⟩⟩,
        ⟨.equals, ⟨11, 12⟩⟩, ⟨.integer 7, ⟨13, 14⟩⟩, ⟨.semicolon, ⟨14, 15⟩⟩] := by
    with_unfolding_all rfl
  have hparse : parse 9
      [⟨.letWord, ⟨0, 3⟩⟩, ⟨.identifier "a", ⟨4, 5⟩⟩, ⟨.colon, ⟨5, 6⟩⟩, ⟨.type .int, ⟨7, 10⟩⟩,
        ⟨.equals, ⟨11, 12⟩⟩, ⟨.integer 7, ⟨13, 14⟩⟩, ⟨.semicolon, ⟨14, 15⟩⟩] =
      .ok (.statements [.binding ⟨.int, "a"⟩ (.value (.int 7))]) := by
    with_unfolding_all rfl
  have hsecond : Token.lex "let b" = .ok [⟨.letWord, ⟨0, 3⟩⟩, ⟨.identifier "b", ⟨4, 5⟩⟩] := by
    with_unfolding_all rfl
  have herror : parse 9 [⟨.letWord, ⟨0, 3⟩⟩, ⟨.identifier "b", ⟨4, 5⟩⟩] =
      .error ⟨⟨5, 5⟩, .unexpected (.token .colon) none⟩ := by
    with_unfolding_all rfl
  obtain ⟨joined, hjoined, -, hmoved, -⟩ := (sources_compose hlex hparse "let b").2 _ hsecond
  exact ⟨joined, hjoined, hmoved _ herror⟩

end LetTree
