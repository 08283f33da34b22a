import LetTree.Proofs.Grammar.OpenLevels
import LetTree.Proofs.Grammar.Places
import LetTree.Proofs.Source.Relocation

/-!
# Sessions

What holds of a session over a list of tokens after any calls, also after failures. A single call is
looked at first: it takes tokens from the front, more than none if it succeeds, and it leaves levels
open only if it stops inside an expression. From there the statements about a whole session follow
by induction on the calls. Open levels are never closed again, so that they use up the limit: in the
end no expression can be read any more.
-/

namespace LetTree

namespace Session

variable {limit : Nat} {tokens : List Token.Placed} {session : Session}

def depth (session : Session) : Nat := session.surroundings.depth

/-- The number of tokens taken from a list. -/
def position (tokens : List Token.Placed) (session : Session) : Nat :=
  tokens.length - session.rest.length

/-- A call with its result, and the session before and after it. -/
structure Step where
  before : Session
  call : Call
  result : Except ParseError Node
  after : Session

def step (session : Session) (call : Call) : Step :=
  let (result, after) := session.advance call.part
  ⟨session, call, result, after⟩

/-- The steps of a session over some calls. -/
def history (session : Session) : List Call → List Step
  | [] => []
  | call :: calls => session.step call :: (session.step call).after.history calls

theorem history_results (session : Session) (calls : List Call) :
    (session.history calls).map Step.result = session.run (calls.map Call.part) := by
  induction calls generalizing session with
  | nil => rfl
  | cons call calls ih => simp only [history, List.map_cons, run, ih, step]

/-! ### Single calls -/

theorem Call.part_local {s : Surroundings} (call : Call) : Parse.Local s call.part := by
  cases call with
  | binding => exact Parse.binding_local
  | function => exact Parse.function_local
  | expression => exact Parse.expression_local

/-- A part that is found is not empty. -/
theorem Call.length_lt_of_ok {s : Surroundings} {ts rest : List Token.Placed} {n : Node}
    (call : Call) (h : call.part s ts = .ok (n, rest)) : rest.length < ts.length := by
  have htaken : ∃ pre, ts = pre ++ rest ∧ pre ≠ [] := by
    cases call with
    | binding =>
      obtain ⟨pre, rfl, hlet, -⟩ := (Parse.binding_exactly _ _ _).mp h
      obtain ⟨-, -, -, hne⟩ := Parse.let_start hlet []
      exact ⟨pre, rfl, hne⟩
    | function =>
      obtain ⟨pre, rfl, hfn, -⟩ := (Parse.function_exactly _ _ _).mp h
      obtain ⟨-, -, -, hne⟩ := Parse.function_start hfn []
      exact ⟨pre, rfl, hne⟩
    | expression =>
      obtain ⟨pre, rfl, ⟨f, htokens, -⟩, -⟩ := (Parse.expression_exactly _ _ _).mp h
      refine ⟨pre, rfl, ?_⟩
      rintro rfl
      have hneed := f.need_le_length
      have hpos := f.need_pos
      rw [htokens, List.map_nil, List.length_nil] at hneed
      omega
  obtain ⟨pre, rfl, hne⟩ := htaken
  simpa using List.length_pos_iff.mpr hne

/-- The error of a call was raised while an expression was read, at one of the places where the call
    comes to read one. -/
def Step.RaisedInside (step : Step) : Prop :=
  ∃ us stop, Parse.Enters step.before.surroundings step.call step.before.rest us ∧
    Parse.expression step.before.surroundings us = .error stop ∧ step.result = .error stop.error

/-- The call did not find an expression because of its limit, and took no token. -/
def Step.Refused (limit : Nat) (step : Step) : Prop :=
  (∃ span, step.result = .error ⟨span, .tooDeep limit⟩) ∧ step.after.rest = step.before.rest

/-- A step is what its call makes of the session before it. -/
def Step.Made (step : Step) : Prop :=
  step.before.advance step.call.part = (step.result, step.after)

theorem step_made (session : Session) (call : Call) : (session.step call).Made := rfl

namespace Step.Made

variable {step : Step}

/-- The two ways in which a call ends. -/
theorem outcome (h : step.Made) :
    (∃ node rest, step.call.part step.before.surroundings step.before.rest = .ok (node, rest) ∧
      step.result = .ok node ∧ step.after = ⟨step.before.surroundings, rest⟩) ∨
    ∃ stop, step.call.part step.before.surroundings step.before.rest = .error stop ∧
      step.result = .error stop.error ∧
      step.after = ⟨⟨step.before.surroundings.limit, step.before.depth + stop.opened,
        step.before.surroundings.ending⟩, stop.rest⟩ := by
  rw [Made, advance] at h
  rcases hpart : step.call.part step.before.surroundings step.before.rest with stop | ⟨node, rest⟩
  · rw [hpart] at h
    obtain ⟨hresult, hafter⟩ := Prod.mk.inj h
    exact .inr ⟨stop, rfl, hresult.symm, hafter.symm⟩
  · rw [hpart] at h
    obtain ⟨hresult, hafter⟩ := Prod.mk.inj h
    exact .inl ⟨node, rest, rfl, hresult.symm, hafter.symm⟩

theorem rest_suffix (h : step.Made) : step.after.rest <:+ step.before.rest := by
  have hlocal := step.call.part_local (s := step.before.surroundings) step.before.rest
  rcases h.outcome with ⟨node, rest, hpart, -, hafter⟩ | ⟨stop, hpart, -, hafter⟩
  · rw [hpart] at hlocal
    rw [hafter]
    exact hlocal
  · rw [hpart] at hlocal
    rw [hafter]
    exact hlocal.1

theorem depth_le (h : step.Made) : step.before.depth ≤ step.after.depth := by
  rcases h.outcome with ⟨node, rest, -, -, hafter⟩ | ⟨stop, -, -, hafter⟩
  · rw [hafter]
    exact Nat.le_refl _
  · rw [hafter]
    exact Nat.le_add_right _ _

/-- A call that succeeds takes a token at least and leaves everything else as it was. -/
theorem of_ok (h : step.Made) {node : Node} (hok : step.result = .ok node) :
    step.after.rest.length < step.before.rest.length ∧
      step.after.surroundings = step.before.surroundings := by
  rcases h.outcome with ⟨found, rest, hpart, -, hafter⟩ | ⟨stop, -, hresult, -⟩
  · rw [hafter]
    exact ⟨step.call.length_lt_of_ok hpart, rfl⟩
  · rw [hresult] at hok
    cases hok

/-- Levels are left open by a call that stops inside an expression, and by no other. -/
theorem raised_iff (h : step.Made) {e : ParseError} (herror : step.result = .error e) :
    step.before.depth < step.after.depth ↔ step.RaisedInside := by
  rcases h.outcome with ⟨node, rest, -, hresult, -⟩ | ⟨stop, hpart, hresult, hafter⟩
  · rw [hresult] at herror
    cases herror
  · have hdepth : step.after.depth = step.before.depth + stop.opened := by
      rw [hafter]
      rfl
    constructor
    · intro hlt
      have hopen : 0 < stop.opened := by omega
      obtain ⟨us, henters, hinside⟩ := (Parse.part_raises_iff step.call hopen).mp hpart
      exact ⟨us, stop, henters, hinside, hresult⟩
    · rintro ⟨us, stop', henters, hinside, -⟩
      have hopen := Parse.opened_pos_of_expression hinside
      have hsame := (Parse.part_raises_iff step.call hopen).mpr ⟨us, henters, hinside⟩
      rw [hpart] at hsame
      cases hsame
      omega

theorem lt_of_failed_expression (h : step.Made) (hcall : step.call = .expression)
    {e : ParseError} (herror : step.result = .error e) : step.before.depth < step.after.depth := by
  refine (h.raised_iff herror).mpr ?_
  rcases h.outcome with ⟨node, rest, -, hresult, -⟩ | ⟨stop, hpart, hresult, -⟩
  · rw [hresult] at herror
    cases herror
  · rw [hcall] at hpart
    exact ⟨step.before.rest, stop, by rw [hcall]; exact .expression, hpart, hresult⟩

/-- Once as many levels are open as the limit allows, no expression is read. -/
theorem refused (h : step.Made) (hcall : step.call = .expression)
    (hfull : step.before.surroundings.limit ≤ step.before.depth) :
    step.Refused step.before.surroundings.limit := by
  have hroom : step.before.surroundings.limit - step.before.surroundings.depth = 0 :=
    Nat.sub_eq_zero_of_le hfull
  have hpart : step.call.part step.before.surroundings step.before.rest =
      .error ⟨⟨Parse.place step.before.surroundings step.before.rest,
        .tooDeep step.before.surroundings.limit⟩, step.before.rest, 1⟩ := by
    rw [hcall]
    simp only [Call.part, Parse.expression, hroom]
    rfl
  rcases h.outcome with ⟨node, rest, hok, -, -⟩ | ⟨stop, hstop, hresult, hafter⟩
  · rw [hok] at hpart
    cases hpart
  · rw [hstop] at hpart
    cases hpart
    exact ⟨⟨_, hresult⟩, by rw [hafter]⟩

end Step.Made

/-! ### Histories -/

/-- What every call keeps holds before each of the steps. -/
theorem history_induction {P : Session → Prop}
    (hkeeps : ∀ step : Step, step.Made → P step.before → P step.after) (hstart : P session)
    {calls : List Call} {step : Step} (hstep : step ∈ session.history calls) :
    step.Made ∧ P step.before := by
  induction calls generalizing session with
  | nil => cases hstep
  | cons call calls ih =>
    rw [history] at hstep
    rcases List.mem_cons.mp hstep with rfl | hstep
    · exact ⟨session.step_made call, hstart⟩
    · exact ih (hkeeps _ (session.step_made call) hstart) hstep

/-- A session that was started over a list of tokens: its tokens are the last ones of the list. -/
structure Over (limit : Nat) (tokens : List Token.Placed) (session : Session) : Prop where
  limit_eq : session.surroundings.limit = limit
  ending_eq : session.surroundings.ending = endOf tokens
  rest_suffix : session.rest <:+ tokens

theorem over_start (limit : Nat) (tokens : List Token.Placed) :
    (start limit tokens).Over limit tokens :=
  ⟨rfl, rfl, List.suffix_refl tokens⟩

theorem Over.after {step : Step} (hmade : step.Made) (h : step.before.Over limit tokens) :
    step.after.Over limit tokens := by
  refine ⟨?_, ?_, hmade.rest_suffix.trans h.rest_suffix⟩
  · rcases hmade.outcome with ⟨_, _, -, -, hafter⟩ | ⟨_, -, -, hafter⟩
    · rw [hafter]
      exact h.limit_eq
    · rw [hafter]
      exact h.limit_eq
  · rcases hmade.outcome with ⟨_, _, -, -, hafter⟩ | ⟨_, -, -, hafter⟩
    · rw [hafter]
      exact h.ending_eq
    · rw [hafter]
      exact h.ending_eq

theorem Over.rest_eq (h : session.Over limit tokens) :
    session.rest = tokens.drop (session.position tokens) :=
  List.suffix_iff_eq_drop.mp h.rest_suffix

theorem over_of_mem_history {calls : List Call} {step : Step}
    (hstep : step ∈ (start limit tokens).history calls) :
    step.Made ∧ step.before.Over limit tokens :=
  history_induction (fun _ => Over.after) (over_start limit tokens) hstep

theorem depth_le_of_mem_history {calls : List Call} {step : Step}
    (hstep : step ∈ session.history calls) : session.depth ≤ step.before.depth :=
  (history_induction (P := fun later => session.depth ≤ later.depth)
    (fun _ hmade hle => Nat.le_trans hle hmade.depth_le) (Nat.le_refl _) hstep).2

/-- After all levels have been used up, every call for an expression is refused. -/
theorem history_refused (hover : session.Over limit tokens) (calls : List Call) :
    (session.history calls).Pairwise fun earlier later =>
      limit ≤ earlier.after.depth → later.call = .expression → later.Refused limit := by
  induction calls generalizing session with
  | nil => exact .nil
  | cons call calls ih =>
    have hafter := hover.after (session.step_made call)
    refine List.pairwise_cons.mpr ⟨?_, ih hafter⟩
    intro later hlater hfull hcall
    obtain ⟨hmade, hbefore⟩ := history_induction (fun _ => Over.after) hafter hlater
    have hdepth := depth_le_of_mem_history hlater
    have hrefused := hmade.refused hcall (by rw [hbefore.limit_eq]; exact Nat.le_trans hfull hdepth)
    rwa [hbefore.limit_eq] at hrefused

/-- Each failure to read an expression takes one of the levels that are left. -/
theorem countP_failed_le (limit : Nat) (session : Session) (calls : List Call) :
    (session.history calls).countP (fun step => step.call = .expression && !step.result.isOk &&
      decide (step.before.depth < limit)) ≤ limit - session.depth := by
  induction calls generalizing session with
  | nil => exact Nat.zero_le _
  | cons call calls ih =>
    have hmade := session.step_made call
    have hothers := ih (session.step call).after
    have hle : session.depth ≤ (session.step call).after.depth := hmade.depth_le
    rw [history, List.countP_cons]
    split
    · next hfailed =>
      simp only [Bool.and_eq_true, Bool.not_eq_true', decide_eq_true_eq] at hfailed
      obtain ⟨⟨hcall, hresult⟩, hroom⟩ := hfailed
      cases herror : (session.step call).result with
      | ok node =>
        rw [herror] at hresult
        cases hresult
      | error e =>
        have hlt := hmade.lt_of_failed_expression hcall herror
        have hbefore : (session.step call).before.depth = session.depth := rfl
        omega
    · omega

/-- As long as calls succeed, only the tokens change. -/
theorem surroundings_of_all_ok {calls : List Call} {done later : List Step} {step : Step}
    (h : session.history calls = done ++ step :: later)
    (hok : ∀ earlier ∈ done, ∃ node, earlier.result = .ok node) :
    step.before.surroundings = session.surroundings := by
  induction done generalizing session calls with
  | nil =>
    cases calls with
    | nil => cases h
    | cons call calls =>
      obtain ⟨rfl, -⟩ := List.cons.inj h
      rfl
  | cons first done ih =>
    cases calls with
    | nil => cases h
    | cons call calls =>
      obtain ⟨rfl, hrest⟩ := List.cons.inj h
      obtain ⟨⟨node, hnode⟩, hothers⟩ := List.forall_mem_cons.mp hok
      rw [ih hrest hothers]
      exact ((session.step_made call).of_ok hnode).2

theorem Step.Made.eq_step {step : Step} (h : step.Made) :
    step = step.before.step step.call := by
  rw [Session.step, h]

/-- Where no token is left, every call fails and takes none. -/
theorem Step.Made.of_rest_nil {step : Step} (h : step.Made) (hnil : step.before.rest = []) :
    step.result.toOption = none ∧ step.after.rest = [] := by
  refine ⟨?_, ?_⟩
  · cases hresult : step.result with
    | error e => rfl
    | ok node =>
      have hlt := (h.of_ok hresult).1
      rw [hnil] at hlt
      cases hlt
  · have hsuffix := h.rest_suffix
    rw [hnil] at hsuffix
    exact List.suffix_nil.mp hsuffix

/-- While nothing is open, a session finds what a new one finds in the tokens that are left. Only
    the place of the end may differ, and only where no token is left. -/
theorem Step.Made.as_fresh {step : Step} (h : step.Made) (hover : step.before.Over limit tokens)
    (hdepth : step.before.depth = 0) :
    step.result.toOption = ((start limit step.before.rest).step step.call).result.toOption ∧
      step.after.rest = ((start limit step.before.rest).step step.call).after.rest := by
  by_cases hnil : step.before.rest = []
  · obtain ⟨hresult, hafter⟩ := h.of_rest_nil hnil
    obtain ⟨hresult', hafter'⟩ :=
      ((start limit step.before.rest).step_made step.call).of_rest_nil hnil
    exact ⟨hresult.trans hresult'.symm, hafter.trans hafter'.symm⟩
  · obtain ⟨pre, hpre⟩ := hover.rest_suffix
    have hending : step.before.surroundings.ending = endOf step.before.rest := by
      rw [hover.ending_eq, ← hpre, endOf_append hnil]
    have hfresh : step.before = start limit step.before.rest := by
      rw [start, ← hover.limit_eq, ← hending, ← hdepth]
      rfl
    rw [← hfresh, ← h.eq_step]
    exact ⟨rfl, rfl⟩

/-- What holds of a call in a session over a list of tokens. -/
structure Step.Orderly (limit : Nat) (tokens : List Token.Placed) (step : Step) : Prop where
  /-- The position goes on from where it was, up to the number of tokens. -/
  position_le : step.before.position tokens ≤ step.after.position tokens ∧
    step.after.position tokens ≤ tokens.length
  /-- The tokens that are left are those from the position on. -/
  rest_eq : step.before.rest = tokens.drop (step.before.position tokens) ∧
    step.after.rest = tokens.drop (step.after.position tokens)
  /-- A success moves the position and leaves the depth. -/
  of_ok : ∀ node, step.result = .ok node →
    step.before.position tokens < step.after.position tokens ∧
      step.after.depth = step.before.depth
  /-- A failure never lowers the depth, and raises it if it comes from inside an expression. -/
  of_error : ∀ e, step.result = .error e → step.before.depth ≤ step.after.depth ∧
    (step.before.depth < step.after.depth ↔ step.RaisedInside)
  /-- Where the depth has reached the limit, no expression is read. -/
  of_limit_le : limit ≤ step.before.depth → step.call = .expression → step.Refused limit

theorem Step.Made.orderly {step : Step} (h : step.Made) (hover : step.before.Over limit tokens) :
    step.Orderly limit tokens := by
  have hafter := hover.after h
  have hbound := hover.rest_suffix.length_le
  have hle := h.rest_suffix.length_le
  refine ⟨⟨?_, Nat.sub_le _ _⟩, ⟨hover.rest_eq, hafter.rest_eq⟩, ?_, ?_, ?_⟩
  · unfold position
    omega
  · intro node hnode
    obtain ⟨hlt, hsame⟩ := h.of_ok hnode
    refine ⟨?_, by rw [depth, hsame, depth]⟩
    unfold position
    omega
  · exact fun e he => ⟨h.depth_le, h.raised_iff he⟩
  · intro hfull hcall
    have hrefused := h.refused hcall (by rwa [hover.limit_eq])
    rwa [hover.limit_eq] at hrefused

end Session

/-- **Sessions.**  Over any list of tokens, at any limit and for any calls: each call is orderly;
    once the depth has reached the limit, every later call for an expression is refused, and no more
    than `limit` calls for an expression fail before; and as long as all calls have succeeded, the
    next one has the success, the tree and the tokens left that it has in a new session over the
    tokens that are left. -/
theorem session_calls_orderly (limit : Nat) (tokens : List Token.Placed)
    (calls : List Session.Call) :
    let history := (Session.start limit tokens).history calls
    history.map Session.Step.result =
        (Session.start limit tokens).run (calls.map Session.Call.part) ∧
      (∀ step ∈ history, step.Orderly limit tokens) ∧
      (history.Pairwise fun earlier later =>
        limit ≤ earlier.after.depth → later.call = .expression → later.Refused limit) ∧
      history.countP (fun step => step.call = .expression && !step.result.isOk &&
        decide (step.before.depth < limit)) ≤ limit ∧
      ∀ done step later, history = done ++ step :: later →
        (∀ earlier ∈ done, ∃ node, earlier.result = .ok node) →
        step.result.toOption =
            ((Session.start limit step.before.rest).step step.call).result.toOption ∧
          step.after.rest =
            ((Session.start limit step.before.rest).step step.call).after.rest := by
  intro history
  refine ⟨Session.history_results _ calls, ?_,
    Session.history_refused (Session.over_start _ _) calls, Session.countP_failed_le limit _ calls,
    ?_⟩
  · intro step hstep
    obtain ⟨hmade, hover⟩ := Session.over_of_mem_history hstep
    exact hmade.orderly hover
  · intro done step later hhistory hok
    have hstep : step ∈ history := by
      rw [hhistory]
      simp
    obtain ⟨hmade, hover⟩ := Session.over_of_mem_history hstep
    have hdepth : step.before.depth = 0 := by
      rw [Session.depth, Session.surroundings_of_all_ok hhistory hok]
      rfl
    exact hmade.as_fresh hover hdepth

/-- Two parentheses that nothing follows leave three levels open, which is all the limit allows. -/
example :
    ((Session.start 3 [⟨.leftParen, ⟨0, 1⟩⟩, ⟨.leftParen, ⟨1, 2⟩⟩]).history
      [.expression, .expression]).map (fun step => (step.after.depth, step.result.toOption)) =
      [(3, none), (4, none)] := by
  with_unfolding_all rfl

end LetTree
