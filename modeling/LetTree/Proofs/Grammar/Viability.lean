import LetTree.Proofs.Grammar.Limit
import LetTree.Proofs.Grammar.Lookahead
import LetTree.Proofs.Grammar.Shape

/-!
# The first wrong token

A token that the reader does not expect is the first one that is wrong: the tokens before it are the
beginning of something with the shape of a program, and together with it they are not.

That they are follows from what the steps of the reader predict, one after the other. That they are
no longer, once the token is added, is a comparison of runs: the reader has not looked at what comes
after the token, so it stops there whatever comes, also under a greater limit, although it would not
stop there in anything with the shape of a program.
-/

namespace LetTree

namespace Grammar

/-- The tokens of an expression of a level, with the height of its tree. -/
def Sized (k : Nat) (ts : List Token) (m : Measured) : Prop :=
  ∃ f : Form, f.tokens = ts ∧ f.Fits k ∧ f.measured = m

/-- Something with the shape of a program begins with these tokens. -/
def Viable (ts : List Token) : Prop := ∃ more, Shaped (ts ++ more)

end Grammar

namespace Parse

open Grammar

variable {s : Surroundings} {ts : List Token.Placed}

/-! ### Expressions -/

theorem sized_string (k : Nat) (text : String) :
    Sized k [.string text] (Form.string text).measured :=
  ⟨.string text, rfl, trivial, rfl⟩

/-- A step that reads a literal from the next token. -/
theorem literal_predicts {q : Parse Measured} {t : Token.Placed} {span : Span} {negative : Bool}
    {n : UInt64} {K : List Token → Measured → Prop}
    (hq : ∀ us, q s (t :: us) = literal span negative n s us)
    (hK : (Form.integer negative n).Fits 9 → K [t.token] (Form.integer negative n).measured)
    (rest : List Token.Placed) : Predicts q s K (t :: rest) := by
  by_cases hfits : (Form.integer negative n).Fits 9
  · refine .of_ok [t] rest _ (hK hfits) ?_
    intro us _
    rw [List.singleton_append, hq]
    exact literal_eq_ok_iff.mpr ⟨rfl, hfits, rfl⟩
  · have hrange : q s (t :: rest) = .error ⟨⟨span, .integerOutOfRange negative n⟩, rest, 0⟩ := by
      rw [hq, literal, literal?_of_not_fits hfits]
    exact .of_error hrange fun _ _ h => by cases h

/-- A minus sign can be completed by an integer, and by nothing else. -/
theorem minus_predicts {inner : Parse Measured} (span : Span) (rest : List Token.Placed) :
    Predicts (primary inner) s (Sized 9) (⟨.operator "-", span⟩ :: rest) := by
  -- After the sign, what is left of the step looks at one more token.
  let after : Parse Measured := fun s us => primary inner s (⟨.operator "-", span⟩ :: us)
  have hzero : ∃ vs b, Sized 9 ([.operator "-"] ++ vs) b :=
    ⟨[.integer 0], _, .integer true 0, rfl, by simp [Form.Fits], rfl⟩
  have hboth : Predicts (expect (.operator "-") >>= fun _ => after) s (Sized 9)
      (⟨.operator "-", span⟩ :: rest) := by
    apply ((expect_predictive (.operator "-")).predicts _).bind
    · rintro us - rfl
      exact hzero
    · rintro - pre mid - - hpre
      rw [hpre]
      rcases mid with - | ⟨⟨token, last⟩, vs⟩
      · exact (Predicts.unexpected hzero .integerLiteral).congr_nil rfl
      · cases token with
        | integer n => exact literal_predicts (fun us => rfl) (fun hfits => ⟨_, rfl, hfits, rfl⟩) vs
        | _ => exact (Predicts.unexpected hzero .integerLiteral).congr_cons fun us => rfl
  apply hboth.congr_cons
  intro us
  rw [bind_of_ok (expect_cons _ span us)]

theorem primary_predictive {inner : Parse Measured} (hinner : Predictive inner s (Sized 0)) :
    Predictive (primary inner) s (Sized 9) := by
  have hcomplete : ∃ us m, Sized 9 us m := ⟨_, _, sized_string 9 ""⟩
  refine ⟨hcomplete, ?_⟩
  intro ts
  rcases ts with - | ⟨⟨token, span⟩, rest⟩
  · exact (Predicts.unexpected hcomplete .expression).congr_nil rfl
  · cases token with
    | integer n => exact literal_predicts (fun us => rfl) (fun hfits => ⟨_, rfl, hfits, rfl⟩) rest
    | string text => exact .of_ok [_] rest _ (sized_string 9 text) fun us _ => rfl
    | operator text =>
      by_cases htext : text = "-"
      · subst htext
        exact minus_predicts span rest
      · exact (Predicts.unexpected hcomplete .expression).congr_cons fun us => if_neg htext
    | leftParen =>
      have hgroup := expect_then_predictive .leftParen <| hinner.bind fun e =>
        expect_then_predictive .rightParen <| pure_predictive e
      refine ((hgroup.predicts _).mono ?_).congr_cons ?_
      · rintro _ _ ⟨_, rfl, _, _, _, rfl, ⟨f, rfl, hfits, rfl⟩, _, rfl, rfl, rfl⟩
        exact ⟨.group f, by simp [Form.tokens], hfits, rfl⟩
      · intro us
        rw [bind_of_ok (expect_cons _ span us)]
        rfl
    | _ => exact (Predicts.unexpected hcomplete .expression).congr_cons fun us => rfl

theorem tokens_operation {text : String} (hknown : (Operator.ofToken text).known = true)
    (f g : Form) : (Form.operation f (Operator.ofToken text) g).tokens =
      f.tokens ++ ([.operator text] ++ g.tokens) := by
  simp [Form.tokens, Operator.text_ofToken hknown]

section Chain

variable {operand : Nat → Parse Measured} {least : Nat} {f : Form}

/-- A round of a chain after a form. The operator can be completed by any operand that fits, and
    the operand by nothing at all; `hmore` is about the rounds that come after. -/
theorem operators_round_predicts {text : String} {span : Span} {rest : List Token.Placed}
    (hknown : (Operator.ofToken text).known = true)
    (hpower : least ≤ (Operator.ofToken text).bindingPower.1)
    (hoperand : Predictive (operand (Operator.ofToken text).bindingPower.2) s
      (Sized (Operator.ofToken text).rightLevel))
    (hjoin : ∀ g : Form, g.Fits (Operator.ofToken text).rightLevel →
      (Form.operation f (Operator.ofToken text) g).Fits (least / 2))
    (hmore : ∀ (g : Form) (last : List Token.Placed), g.Fits (Operator.ofToken text).rightLevel →
      operand (Operator.ofToken text).bindingPower.2 s rest = .ok (g.measured, last) →
      last.length ≤ rest.length →
      Predicts (operators operand least (Form.operation f (Operator.ofToken text) g).measured) s
        (fun vs m => Sized (least / 2)
          ((Form.operation f (Operator.ofToken text) g).tokens ++ vs) m) last) :
    Predicts (operators operand least f.measured) s
      (fun vs m => Sized (least / 2) (f.tokens ++ vs) m) (⟨.operator text, span⟩ :: rest) := by
  have htokens := tokens_operation hknown f
  have hround : Predicts (expect (.operator text) >>= fun _ =>
      operand (Operator.ofToken text).bindingPower.2 >>=
        joinRight operand least f.measured (Operator.ofToken text) span) s
      (fun vs m => Sized (least / 2) (f.tokens ++ vs) m) (⟨.operator text, span⟩ :: rest) := by
    apply ((expect_predictive (.operator text)).predicts _).bind
    · rintro _ - rfl
      exact ⟨[.string ""], _, _, htokens (.string ""), hjoin _ trivial, rfl⟩
    · rintro _ pre mid - hmid hpre
      obtain ⟨_, heq⟩ := expect_eq_ok_iff.mp hmid
      cases heq
      rw [hpre]
      apply (hoperand.predicts rest).bind
      · rintro _ _ ⟨g, rfl, hg, rfl⟩
        exact ⟨[], _, _, by rw [List.append_nil]; exact htokens g, hjoin g hg, rfl⟩
      · rintro _ post last hrest hright ⟨g, hpost, hg, rfl⟩
        by_cases htall : s.limit < max f.height g.height + 1
        · exact .of_error (if_pos htall) fun _ _ h => by cases h
        · have hlength : last.length ≤ rest.length := by simp [hrest]
          refine ((hmore g last hg hright hlength).mono ?_).congr fun us _ => if_neg htall
          intro vs m hm
          rw [htokens, hpost] at hm
          simpa using hm
  apply hround.congr_cons
  intro us
  rw [bind_of_ok (expect_cons _ span us)]
  apply operators_bind hknown hpower
  intro right last hright
  obtain ⟨pre, rfl, -⟩ := (hoperand.predicts us).taken right last hright
  simp

/-- The chain of operators after a form. As in `operators_sound`, the form may be the left operand
    of whatever operator comes next. -/
theorem operators_predicts
    (hoperand : ∀ j ≤ 17, Predictive (operand j) s (Sized (j / 2)))
    (hstops : ∀ j ≤ 17, ∀ us m rest, operand j s us = .ok (m, rest) → Stops (j / 2) rest)
    (hleast : least ≤ 17) (hfits : f.Fits (least / 2)) (ts : List Token.Placed)
    (hnext : ∀ text span us, ts = ⟨.operator text, span⟩ :: us →
      (Operator.ofToken text).known = true → f.Fits (Operator.ofToken text).leftLevel) :
    Predicts (operators operand least f.measured) s
      (fun vs m => Sized (least / 2) (f.tokens ++ vs) m) ts := by
  induction hn : ts.length using Nat.strongRecOn generalizing ts f with
  | _ k ih =>
    subst hn
    have hdone : Sized (least / 2) (f.tokens ++ []) f.measured := ⟨f, by simp, hfits, rfl⟩
    induction ts using chain_cases least with
    | other ts hother =>
      refine .of_ok [] ts _ hdone ?_
      intro us hus
      apply operators_other
      rintro text span vs rfl
      obtain ⟨ws, rfl⟩ := List.head?_eq_some_iff.mp hus.symm
      exact hother text span ws rfl
    | unknown text span rest hknown =>
      exact .of_error (operators_unknown hknown) fun _ _ h => by cases h
    | loose text span rest hknown hpower =>
      refine .of_ok [] _ _ hdone ?_
      intro us hus
      obtain ⟨vs, rfl⟩ := List.head?_eq_some_iff.mp hus
      exact operators_loose hknown hpower
    | round text span rest hknown hpower =>
      have hright17 := Operator.bindingPower_right_le (Operator.ofToken text)
      have hhalf := Operator.bindingPower_right_half hknown
      have hleft := hnext text span rest rfl hknown
      have hlevel := (Operator.le_bindingPower_iff hknown hleast).mp hpower
      have hjoin : ∀ g : Form, g.Fits (Operator.ofToken text).rightLevel →
          (Form.operation f (Operator.ofToken text) g).Fits (least / 2) :=
        fun g hg => ⟨hknown, hlevel, hleft, hg⟩
      refine operators_round_predicts hknown hpower (hhalf ▸ hoperand _ hright17) hjoin ?_
      intro g last hg hright hlength
      refine ih last.length (Nat.lt_succ_of_le hlength) (hjoin g hg) last ?_ rfl
      -- The operand ended at an operator that is too loose for it.
      intro text' span' us' heq hknown'
      obtain ⟨-, hlt⟩ := hstops _ hright17 _ _ _ hright text' span' us' heq
      rw [hhalf] at hlt
      exact ⟨hknown, Operator.leftLevel_le_precedence hknown' hknown hlt, hleft, hg⟩

end Chain

/-- What is taken as an expression is one, and what comes before an unexpected token is the
    beginning of one, however much room there is. -/
theorem expressionIn_predictive {room : Nat} (hroom : room ≤ s.limit) :
    ∀ least ≤ 17, Predictive (expressionIn room least) s (Sized (least / 2)) := by
  induction room with
  | zero =>
    intro least _
    exact ⟨⟨_, _, sized_string _ ""⟩, fun ts => .of_error rfl fun _ _ h => by cases h⟩
  | succ room ih =>
    intro least hleast
    have hinside := ih (Nat.le_of_succ_le hroom)
    refine ⟨⟨_, _, sized_string _ ""⟩, fun ts => Predicts.nested ?_⟩
    apply ((primary_predictive (hinside 0 (by omega))).predicts ts).bind
    · rintro us m ⟨f, rfl, hfits, rfl⟩
      exact ⟨[], _, f, by simp, fits_of_fits_nine hfits _, rfl⟩
    · rintro _ pre rest - - ⟨f, htokens, hfits, rfl⟩
      rw [← htokens]
      apply operators_predicts hinside _ hleast (fits_of_fits_nine hfits _)
      · intro text span us _ _
        exact fits_of_fits_nine hfits _
      · intro j hj us m rest hm
        obtain ⟨-, -, -, hstops⟩ :=
          (expressionIn_exactly (Nat.le_of_succ_le hroom) j hj us m rest).mp hm
        exact hstops

theorem expression_predictive : Predictive expression s (Expression 0) := by
  have hin := expressionIn_predictive (Nat.sub_le s.limit s.depth) 0 (by omega)
  refine ⟨⟨_, _, (Expression.string "").loosen (by omega) (by omega)⟩, fun ts => ?_⟩
  refine ((hin.predicts ts).map ?_).congr fun us _ => rfl
  rintro _ _ ⟨f, rfl, hfits, rfl⟩
  exact f.expression_of_fits 0 (by omega) hfits

/-! ### Programs -/

theorem binding_predictive : Predictive binding s (Let (Expression 0)) := by
  have hparts := expect_then_predictive (s := s) .letWord <|
    identifier_predictive.bind fun name => expect_then_predictive .colon <|
    type_predictive.bind fun ty => expect_then_predictive .equals <|
    expression_predictive.bind fun init => expect_then_predictive .semicolon <|
    pure_predictive (Node.binding ⟨ty, name.1⟩ init)
  refine hparts.mono ?_
  rintro _ _ ⟨_, rfl, _, ⟨name, -⟩, _, rfl, rfl, _, rfl, _, ty, _, rfl, rfl, _, rfl, us, init, _,
    rfl, he, _, rfl, rfl, rfl⟩
  exact .intro he

theorem parameter_predictive (taken : List String) :
    Predictive (parameter taken) s fun us p => us = [.identifier p.name, .colon, .type p.ty] := by
  have hlast : ∀ (name : String) (span : Span) (ty : Ty), Predictive
      (if name ∈ taken then fun _ ts => .error ⟨⟨span, .duplicateParameter name⟩, ts, 0⟩
        else pure ⟨ty, name⟩ : Parse Declaration) s fun us p => us = [] ∧ p = ⟨ty, name⟩ := by
    intro name span ty
    apply Predictive.ite
    · exact ⟨⟨_, _, rfl, rfl⟩, fun ts => .of_error rfl fun _ _ h => by cases h⟩
    · exact pure_predictive _
  have hparts := identifier_predictive.bind fun r => expect_then_predictive .colon <|
    type_predictive.bind fun ty => hlast r.1 r.2 ty
  refine hparts.mono ?_
  rintro _ _ ⟨_, ⟨name, -⟩, _, rfl, rfl, _, rfl, _, ty, _, rfl, rfl, rfl, rfl⟩
  rfl

theorem parametersFrom_predicts (taken : List String) (ts : List Token.Placed) :
    Predicts (parametersFrom taken) s Parameters ts := by
  induction hn : ts.length using Nat.strongRecOn generalizing ts taken with
  | _ k ih =>
    subst hn
    refine Predicts.congr ?_ fun us _ => parametersFrom_bind parameter_length_lt
    apply ((parameter_predictive taken).predicts ts).bind
    · rintro _ p rfl
      exact ⟨[], [p], .last⟩
    · intro p pre rest hts hp hpre
      have hlt := parameter_length_lt p rest hp
      rw [hpre]
      apply ((optional_predictive .comma).predicts rest).bind
      · rintro _ (- | -) rfl
        · exact ⟨[], [p], .last⟩
        · exact ⟨_, _, .more (@Parameters.last "" .void)⟩
      · rintro (- | -) post last hrest - hpost
        · refine ((pure_predictive [p]).predicts last).mono ?_
          rintro _ _ ⟨rfl, rfl⟩
          rw [hpost]
          exact .last
        · have hshorter : last.length < ts.length := by
            rw [hrest, List.length_append] at hlt
            omega
          rw [hpost]
          exact (ih last.length hshorter (p.name :: taken) last rfl).map fun us ps hps => .more hps

theorem parameters_predictive : Predictive parameters s SignatureShape where
  complete := ⟨[], [], .empty⟩
  predicts := by
    intro ts
    cases hnext : nextIs .rightParen ts with
    | true =>
      refine .of_ok [] ts [] .empty ?_
      intro us hus
      rw [List.nil_append, parameters, nextIs_of_head? hus, hnext, if_pos rfl]
    | false =>
      refine ((parametersFrom_predicts [] ts).mono fun us ps => .listed).congr ?_
      intro us hus
      rw [parameters, nextIs_of_head? hus, hnext, if_neg (by decide)]

theorem function_predictive : Predictive function s (FunctionShape (Expression 0)) := by
  have hreturns : ∀ arrow : Bool, Predictive (if arrow = true then type else pure .void) s
      fun us ty => Returns ((if arrow then [.arrow] else []) ++ us) ty := by
    rintro (- | -)
    · refine (pure_predictive Ty.void).mono ?_
      rintro _ _ ⟨rfl, rfl⟩
      exact .absent
    · refine type_predictive.mono ?_
      rintro _ ty rfl
      exact .present
  have hbody : Predictive (many (nextIs .rightBrace) binding) s (Star (Let (Expression 0))) :=
    many_predictive binding_predictive (fun _ _ h => h.ne_nil)
      fun _ _ h => nextIs_of_head? h .rightBrace
  have hparts := expect_then_predictive .fnWord <| identifier_predictive.bind fun name =>
    expect_then_predictive .leftParen <| parameters_predictive.bind fun params =>
    expect_then_predictive .rightParen <| (optional_predictive .arrow).bind fun arrow =>
    (hreturns arrow).bind fun ty => expect_then_predictive .leftBrace <|
    hbody.bind fun body => expect_then_predictive .rightBrace <|
    pure_predictive (Node.function name.1 ty params body)
  refine ⟨⟨_, _, @FunctionShape.intro _ "" .void [] [] [] [] [] .empty .absent .nil⟩, fun ts => ?_⟩
  refine ((hparts.predicts ts).mono ?_).congr ?_
  · rintro _ _ ⟨_, rfl, _, ⟨name, -⟩, _, rfl, rfl, _, rfl, pts, ps, _, rfl, hps, _, rfl, ats, arrow,
      _, rfl, hats, rts, ty, _, rfl, hty, _, rfl, bts, body, _, rfl, hstar, _, rfl, rfl, rfl⟩
    rw [← hats] at hty
    simpa using @FunctionShape.intro _ name _ _ _ _ _ _ hps hty hstar
  · intro us _
    simp only [function, ite_bind]

theorem item_predictive : Predictive item s (ItemShape (Expression 0)) := by
  have hcomplete : ∃ us n, ItemShape (Expression 0) us n := by
    obtain ⟨us, n, hlet⟩ := (binding_predictive (s := s)).complete
    exact ⟨us, n, .inl hlet⟩
  refine ⟨hcomplete, ?_⟩
  intro ts
  cases hlet : nextIs .letWord ts with
  | true =>
    refine ((binding_predictive.predicts ts).mono fun us n => .inl).congr ?_
    intro us hus
    rw [item, nextIs_of_head? hus, hlet, if_pos rfl]
  | false =>
    cases hfn : nextIs .fnWord ts with
    | true =>
      refine ((function_predictive.predicts ts).mono fun us n => .inr).congr ?_
      intro us hus
      rw [item, nextIs_of_head? hus, nextIs_of_head? hus, hlet, hfn, if_neg (by decide), if_pos rfl]
    | false =>
      refine (Predicts.unexpected hcomplete .item).congr ?_
      intro us hus
      rw [item, nextIs_of_head? hus, nextIs_of_head? hus, hlet, hfn, if_neg (by decide),
        if_neg (by decide)]

theorem program_predictive : Predictive program s fun ts _ => Shaped ts := by
  have hitems : Predictive (many List.isEmpty item) s (Star (ItemShape (Expression 0))) :=
    many_predictive item_predictive (fun _ _ h => h.ne_nil) fun _ _ => isEmpty_of_head?
  exact hitems.map fun us items hstar => ⟨items, hstar⟩

/-- Tokens that are refused at one that was not expected do not have the shape of a program: with a
    limit that is high enough they would be refused in the same way. -/
theorem not_shaped_of_unexpected (hdepth : s.depth = 0) {stop : Stop} {expected : Expected}
    {found : Option Token} (h : program s ts = .error stop)
    (hcause : stop.error.cause = .unexpected expected found) :
    ¬ Shaped (ts.map Token.Placed.token) := by
  intro hshaped
  let s' : Surroundings := ⟨s.limit + ts.length, s.depth, s.ending⟩
  have hraises : Raises s s' := ⟨Nat.le_add_right _ _, rfl, rfl⟩
  have hsame : program s' ts = .error stop := by
    rcases program_extends hraises hdepth ts (Nat.le_refl _) with
      ⟨stop', hstop', hcut, -⟩ | ⟨hsame, -⟩
    · cases h.symm.trans hstop'
      rw [hcause] at hcut
      cases hcut
    · rw [hsame, h]
  have hlimit : ts.length ≤ s'.limit - s'.depth := by
    simp only [s', hdepth]
    omega
  rcases program_of_shaped hshaped hlimit with ⟨root, hroot⟩ | ⟨stop', name, hstop', hname⟩
  · cases hsame.symm.trans hroot
  · cases hsame.symm.trans hstop'
    rw [hcause] at hname
    cases hname

end Parse

theorem program_of_parse_error {limit : Nat} {tokens : List Token.Placed} {e : ParseError}
    (h : parse limit tokens = .error e) :
    ∃ stop, Parse.program ⟨limit, 0, endOf tokens⟩ tokens = .error stop ∧ stop.error = e := by
  rw [parse] at h
  split at h
  · cases h
  · next stop hstop =>
    cases h
    exact ⟨stop, hstop, rfl⟩

open Grammar (Shaped Viable)

/-- **An unexpected token is the first wrong one.**  If a token is reported as not expected, then
    the tokens before it are the beginning of something with the shape of a program, and no such
    thing begins with those tokens and the one reported; the error is at the place of that token.
    If it is the end of the tokens that was not expected, then there is a last token, the error is
    the empty place after it, and all tokens together do not have the shape of a program but are a
    proper part at the beginning of something that has. -/
theorem parse_unexpected_first_wrong (limit : Nat) (tokens : List Token.Placed) {span : Span}
    {expected : Expected} {found : Option Token}
    (h : parse limit tokens = .error ⟨span, .unexpected expected found⟩) :
    (∃ k t, tokens[k]? = some t ∧ found = some t.token ∧ span = t.span ∧
      Viable ((tokens.take k).map Token.Placed.token) ∧
      ¬ Viable ((tokens.take (k + 1)).map Token.Placed.token)) ∨
    (∃ last, tokens.getLast? = some last ∧ found = none ∧
      span = ⟨last.span.stop, last.span.stop⟩ ∧
      ¬ Shaped (tokens.map Token.Placed.token) ∧
      ∃ more ≠ [], Shaped (tokens.map Token.Placed.token ++ more)) := by
  obtain ⟨stop, hstop, herror⟩ := program_of_parse_error h
  have hcause : stop.error.cause = .unexpected expected found := by rw [herror]
  obtain ⟨⟨expected', hreport⟩, pre, htokens, ⟨more, -, hmore⟩, hlocal⟩ :=
    (Parse.program_predictive.predicts tokens).refused stop expected found hstop hcause
  -- Whatever comes after the reported token, the reader stops there.
  have hdead : ∀ us, us.head? = stop.rest.head? → ¬ Shaped ((pre ++ us).map Token.Placed.token) :=
    fun us hus => Parse.not_shaped_of_unexpected rfl (hlocal us hus) hcause
  rw [herror] at hreport
  cases hrest : stop.rest with
  | cons t rest =>
    rw [hrest] at hreport htokens hdead
    cases hreport
    subst htokens
    refine .inl ⟨pre.length, t, by simp, rfl, rfl, ⟨more, by simpa using hmore⟩, ?_⟩
    rintro ⟨others, hshaped⟩
    apply hdead (t :: others.map fun token => ⟨token, ⟨0, 0⟩⟩) rfl
    rw [List.take_length_add_append] at hshaped
    simpa [Function.comp_def] using hshaped
  | nil =>
    rw [hrest] at hreport htokens hdead
    obtain rfl : tokens = pre := by rw [htokens, List.append_nil]
    have hshape : ¬ Shaped (tokens.map Token.Placed.token) := by
      simpa using hdead [] rfl
    cases hlast : tokens.getLast? with
    | none =>
      obtain rfl := List.getLast?_eq_none_iff.mp hlast
      exact absurd ⟨[], .nil⟩ hshape
    | some last =>
      cases hreport
      refine .inr ⟨last, rfl, rfl, ?_, hshape, more, ?_, hmore⟩
      · simp only [Parse.place, endOf, hlast]
      · rintro rfl
        rw [List.append_nil] at hmore
        exact hshape hmore

/-- `fn f(a: int, a =`: the equals sign is wrong, and what comes before it is not, although the name
    of the second parameter is that of the first. -/
theorem parse_unexpected_first_wrong_equals :
    let tokens : List Token.Placed :=
      [⟨.fnWord, ⟨0, 2⟩⟩, ⟨.identifier "f", ⟨3, 4⟩⟩, ⟨.leftParen, ⟨4, 5⟩⟩,
        ⟨.identifier "a", ⟨5, 6⟩⟩, ⟨.colon, ⟨6, 7⟩⟩, ⟨.type .int, ⟨8, 11⟩⟩, ⟨.comma, ⟨11, 12⟩⟩,
        ⟨.identifier "a", ⟨13, 14⟩⟩, ⟨.equals, ⟨15, 16⟩⟩]
    parse 256 tokens = .error ⟨⟨15, 16⟩, .unexpected (.token .colon) (some .equals)⟩ ∧
      Viable ((tokens.take 8).map Token.Placed.token) ∧
      ¬ Viable ((tokens.take 9).map Token.Placed.token) := by
  intro tokens
  have hparse : parse 256 tokens =
      .error ⟨⟨15, 16⟩, .unexpected (.token .colon) (some .equals)⟩ := by
    with_unfolding_all rfl
  have honly : ∀ k < 9, (tokens[k]?).map (·.token) = some .equals → k = 8 := by decide
  refine ⟨hparse, ?_⟩
  rcases parse_unexpected_first_wrong 256 tokens hparse with
    ⟨k, t, hk, hfound, -, hviable, hdead⟩ | ⟨last, -, hfound, -⟩
  · obtain rfl := honly k (List.getElem?_eq_some_iff.mp hk).1 (by rw [hk, hfound]; rfl)
    exact ⟨hviable, hdead⟩
  · cases hfound

end LetTree
