import LetTree.Proofs.Grammar.Limit
import LetTree.Proofs.Grammar.Session

/-!
# Nesting and height

One limit is checked against two measures of an expression, at different moments: against its need
whenever a level is opened, and against the height of its tree whenever a right operand has been
taken. The left operand of an operator is read on the level of the operator itself, so that a long
chain to the left has a small need and a great height; parentheses add to the need and not to the
height. This file shows that the limit is exact for both: an expression is read if neither measure
exceeds the limit, and otherwise the error is about the limit (`Overruns`). The height that the
reader keeps while it goes along is the one of the tree, and no tree of a session has an expression
that is higher than the limit.
-/

namespace LetTree

/-! ### Heights of trees -/

namespace Node

mutual

/-- The height of the highest expression of a tree. A value has height 1, and an operator stands
    one above the higher one of its operands; the other nodes only hold expressions. -/
def expressionHeight : Node → Nat
  | binary _ left right => max left.expressionHeight right.expressionHeight + 1
  | value _ => 1
  | binding _ init => init.expressionHeight
  | function _ _ _ body => expressionHeightAll body
  | statements items => expressionHeightAll items
  | reserved _ | declaration _ | declarations _ => 0

def expressionHeightAll : List Node → Nat
  | [] => 0
  | n :: ns => max n.expressionHeight (expressionHeightAll ns)

end

end Node

theorem Form.expressionHeight_node (f : Form) : f.node.expressionHeight = f.height := by
  induction f with
  | integer negative n => rfl
  | string s => rfl
  | group inner ih => exact ih
  | operation left op right ihl ihr => simp only [node, Node.expressionHeight, height, ihl, ihr]

/-- The height that comes with a tree is the height of the tree. -/
def Measured.Exact (m : Measured) : Prop := m.height = m.node.expressionHeight

namespace Parse

variable {s : Surroundings} {room least : Nat} {ts rest : List Token.Placed}

/-! ### The height the reader keeps -/

theorem literal_measured {span : Span} {negative : Bool} {n : UInt64} {m : Measured}
    (h : literal span negative n s ts = .ok (m, rest)) : m.Exact := by
  obtain ⟨-, -, rfl⟩ := literal_eq_ok_iff.mp h
  rfl

theorem primary_measured {inner : Parse Measured}
    (hinner : ∀ us m rest, inner s us = .ok (m, rest) → m.Exact) {m : Measured}
    (h : primary inner s ts = .ok (m, rest)) : m.Exact := by
  unfold primary at h
  split at h
  · exact literal_measured h
  · split at h
    · split at h
      · exact literal_measured h
      · exact absurd h unexpected_ne_ok
    · exact absurd h unexpected_ne_ok
  · cases h
    rfl
  · obtain ⟨last, hin⟩ := group_eq_ok_iff.mp h
    exact hinner _ _ _ hin
  · exact absurd h unexpected_ne_ok

/-- Each round of a chain puts an operator on top of two trees whose heights are known. -/
theorem operators_measured {operand : Nat → Parse Measured}
    (hoperand : ∀ j us m rest, operand j s us = .ok (m, rest) → m.Exact)
    {left m : Measured} (hleft : left.Exact)
    (h : operators operand least left s ts = .ok (m, rest)) : m.Exact := by
  induction hn : ts.length using Nat.strongRecOn generalizing ts left with
  | _ n ih =>
    subst hn
    induction ts using chain_cases least with
    | other ts hother =>
      rw [operators_other hother] at h
      cases h
      exact hleft
    | unknown text span us hknown =>
      rw [operators_unknown hknown] at h
      cases h
    | loose text span us hknown hpower =>
      rw [operators_loose hknown hpower] at h
      cases h
      exact hleft
    | round text span us hknown hpower =>
      rw [operators_round hknown hpower] at h
      obtain ⟨right, mid, hright, h⟩ := bind_eq_ok_iff.mp h
      have hjoined : Measured.Exact ⟨.binary (Operator.ofToken text) left.node right.node,
          max left.height right.height + 1⟩ := by
        have hr := hoperand _ _ _ _ hright
        rw [Measured.Exact] at hleft hr
        simp only [Measured.Exact, Node.expressionHeight, hleft, hr]
      split at h
      · cases h
      · split at h
        · next hshort =>
          exact ih mid.length (Nat.lt_succ_of_le hshort) hjoined h rfl
        · cases h
          exact hjoined

/-- Whatever the room and the least power, the height that is returned is the one of the tree. -/
theorem expressionIn_measured {m : Measured} (h : expressionIn room least s ts = .ok (m, rest)) :
    m.Exact := by
  induction room generalizing least ts m rest with
  | zero => cases h
  | succ room ih =>
    simp only [expressionIn, nested] at h
    split at h
    · next r hr =>
      cases h
      obtain ⟨first, mid, hfirst, hchain⟩ := bind_eq_ok_iff.mp hr
      have hone : first.Exact := primary_measured (fun _ _ _ => ih) hfirst
      exact operators_measured (fun _ _ _ _ => ih) hone hchain
    · cases h

/-! ### Forms beyond the limit -/

/-- The outcome is an error that names the limit. -/
def Exceeds {α : Type} (limit : Nat) (o : Except Stop (α × List Token.Placed)) : Prop :=
  ∃ stop, o = .error stop ∧ stop.error.cause.limit? = some limit

theorem Exceeds.bind {α β : Type} {limit : Nat} {p : Parse α} {f : α → Parse β}
    (h : Exceeds limit (p s ts)) : Exceeds limit ((p >>= f) s ts) := by
  obtain ⟨stop, hstop, hcause⟩ := h
  exact ⟨stop, bind_of_error hstop, hcause⟩

theorem Exceeds.nested {α : Type} {limit : Nat} {p : Parse α} (h : Exceeds limit (p s ts)) :
    Exceeds limit (Parse.nested p s ts) := by
  obtain ⟨stop, hstop, hcause⟩ := h
  refine ⟨⟨stop.error, stop.rest, stop.opened + 1⟩, ?_, hcause⟩
  rw [Parse.nested, hstop]

/-- At the forms of a level that need more than the room, or are higher than the limit, the step
    stops with an error that names the limit. -/
def Overruns (p : Parse Measured) (s : Surroundings) (k room : Nat) : Prop :=
  ∀ (f : Form) (pre rest : List Token.Placed), pre.map Token.Placed.token = f.tokens → f.Fits k →
    Stops k rest → room < f.need ∨ s.limit < f.height → Exceeds s.limit (p s (pre ++ rest))

section Chain

variable {operand : Nat → Parse Measured}

/-- A round that stops at the limit: the right operand is beyond it, or the operator is because of
    one of its operands. -/
theorem operators_exceeds
    (hexactly : ∀ j ≤ 17, Exactly (operand j) s (Grammar.Within (j / 2) room s.limit)
      (Stops (j / 2)))
    (hoverruns : ∀ j ≤ 17, Overruns (operand j) s (j / 2) room) (hleast : least ≤ 17)
    {op : Operator} (hknown : op.known = true) (hlevel : least / 2 ≤ op.precedence)
    {left : Measured} {right : Form} {pre : List Token.Placed} (span : Span)
    (htokens : pre.map Token.Placed.token = right.tokens) (hfits : right.Fits op.rightLevel)
    (hstops : Stops op.rightLevel rest)
    (hover : room < right.need ∨ s.limit < max left.height right.height + 1) :
    Exceeds s.limit
      (operators operand least left s (⟨.operator op.text, span⟩ :: (pre ++ rest))) := by
  have htext := Operator.ofToken_text op
  have hpower : least ≤ (Operator.ofToken op.text).bindingPower.1 := by
    rw [htext]
    exact (Operator.le_bindingPower_iff hknown hleast).mpr hlevel
  have hpower17 := Operator.bindingPower_right_le op
  rw [← Operator.bindingPower_right_half hknown] at hfits hstops
  rw [operators_round (by rw [htext]; exact hknown) hpower, htext]
  by_cases hright : room < right.need ∨ s.limit < right.height
  · exact (hoverruns _ hpower17 right pre rest htokens hfits hstops hright).bind
  · have hsecond : operand op.bindingPower.2 s (pre ++ rest) = .ok (right.measured, rest) :=
      (hexactly _ hpower17 _ _ _).mpr
        ⟨pre, rfl, ⟨right, htokens.symm, hfits, by omega, by omega, rfl⟩, hstops⟩
    have htall : s.limit < max left.height right.measured.height + 1 := by
      simp only [Form.measured]
      omega
    exact ⟨_, (bind_of_ok hsecond).trans (if_pos htall), rfl⟩

/-- The part of `climb` for forms beyond the limit. What stands in parentheses and what stands on
    the right of an operator is read with less room; what stands on the left is read on the same
    level, which is what the induction is for. -/
theorem climb_exceeds (hlimit : 0 < s.limit)
    (hexactly : ∀ j ≤ 17, Exactly (operand j) s (Grammar.Within (j / 2) room s.limit)
      (Stops (j / 2)))
    (hoverruns : ∀ j ≤ 17, Overruns (operand j) s (j / 2) room) (hleast : least ≤ 17) (f : Form) :
    ∀ pre rest : List Token.Placed, pre.map Token.Placed.token = f.tokens →
      f.Fits (least / 2) → Closed f rest → room + 1 < f.need ∨ s.limit < f.height →
      Exceeds s.limit ((primary (operand 0) >>= operators operand least) s (pre ++ rest)) := by
  induction f with
  | integer negative n =>
    intro pre rest _ _ _ hover
    simp only [Form.need, Form.height] at hover
    omega
  | string text =>
    intro pre rest _ _ _ hover
    simp only [Form.need, Form.height] at hover
    omega
  | group inner _ =>
    intro pre rest htokens hfits _ hover
    obtain ⟨⟨token, span⟩, us, rfl, rfl, hus⟩ := List.map_eq_cons_iff.mp htokens
    obtain ⟨vs, ws, rfl, hvs, hws⟩ := List.map_eq_append_iff.mp hus
    obtain ⟨⟨token, last⟩, rfl, rfl⟩ := List.map_eq_singleton_iff.mp hws
    simp only [Form.need, Form.height] at hover
    have hstops : Stops 0 (⟨.rightParen, last⟩ :: rest) := by
      intro text place more hmore
      cases hmore
    have hinner := hoverruns 0 (by omega) inner vs (⟨.rightParen, last⟩ :: rest) hvs hfits hstops
      (by omega)
    rw [List.append_cons] at hinner
    exact hinner.bind.bind
  | operation left op right ihl _ =>
    intro pre rest htokens hfits hclosed hover
    obtain ⟨hknown, hlevel, hleft, hright⟩ := hfits
    obtain ⟨us, vs, rfl, hus, hvs⟩ := List.map_eq_append_iff.mp htokens
    obtain ⟨⟨token, span⟩, ws, rfl, rfl, hws⟩ := List.map_eq_cons_iff.mp hvs
    simp only [Form.need, Form.height] at hover
    rw [List.append_assoc, List.cons_append]
    have hop := closed_of_operator hknown hleft span (ws ++ rest)
    have hfirst := hleft.mono (Nat.le_trans hlevel op.precedence_le_leftLevel)
    by_cases hl : room + 1 < left.need ∨ s.limit < left.height
    · exact ihl us _ hus hfirst hop hl
    · have hprimary := primary_exactly hlimit (hexactly 0 (by omega))
      rw [climb hprimary hexactly hleast left us _ hus hfirst (by omega) (by omega) hop]
      refine operators_exceeds hexactly hoverruns hleast hknown hlevel span hws hright hclosed ?_
      simp only [Form.measured]
      omega

end Chain

theorem expressionIn_overruns (hroom : room ≤ s.limit) :
    ∀ least ≤ 17, Overruns (expressionIn room least) s (least / 2) room := by
  induction room with
  | zero =>
    intro least _ f pre rest _ _ _ _
    exact ⟨_, rfl, rfl⟩
  | succ room ih =>
    intro least hleast f pre rest htokens hfits hstops hover
    refine Exceeds.nested ?_
    exact climb_exceeds (by omega) (expressionIn_exactly (by omega)) (ih (by omega)) hleast f pre
      rest htokens hfits (closed_of_stops hfits hstops) hover

theorem stops_nil (k : Nat) : Stops k [] := by
  intro text span us heq
  cases heq

/-- A form that is all there is gives its tree. -/
theorem expression_of_le {f : Form} (htokens : ts.map Token.Placed.token = f.tokens)
    (hfits : f.Fits 0) (hneed : f.need ≤ s.limit - s.depth) (hheight : f.height ≤ s.limit) :
    expression s ts = .ok (f.node, []) :=
  (expression_exactly _ _ _).mpr ⟨ts, (List.append_nil ts).symm,
    ⟨f, htokens.symm, hfits, hneed, hheight, rfl⟩, stops_nil 0⟩

theorem expression_of_lt {f : Form} (htokens : ts.map Token.Placed.token = f.tokens)
    (hfits : f.Fits 0) (hover : s.limit - s.depth < f.need ∨ s.limit < f.height) :
    Exceeds s.limit (expression s ts) := by
  have h := expressionIn_overruns (Nat.sub_le s.limit s.depth) 0 (by omega) f ts [] htokens hfits
    (stops_nil 0) hover
  rw [List.append_nil] at h
  exact h.bind

end Parse

/-! ### Trees within the limit -/

namespace Grammar

variable {E : List Token → Node → Prop} {limit : Nat}

theorem Let.expressionHeight_le (hE : ∀ us e, E us e → e.expressionHeight ≤ limit)
    {ts : List Token} {n : Node} (h : Let E ts n) : n.expressionHeight ≤ limit := by
  cases h with
  | intro he =>
    rw [Node.expressionHeight]
    exact hE _ _ he

theorem Star.expressionHeight_le {G : List Token → Node → Prop}
    (hG : ∀ us n, G us n → n.expressionHeight ≤ limit) {ts : List Token} {ns : List Node}
    (h : Star G ts ns) : Node.expressionHeightAll ns ≤ limit := by
  induction h with
  | nil => exact Nat.zero_le _
  | cons h hs ih => exact Nat.max_le.mpr ⟨hG _ _ h, ih⟩

theorem Function.expressionHeight_le (hE : ∀ us e, E us e → e.expressionHeight ≤ limit)
    {ts : List Token} {n : Node} (h : Function E ts n) : n.expressionHeight ≤ limit := by
  cases h with
  | intro _ _ hbody => exact hbody.expressionHeight_le fun _ _ => Let.expressionHeight_le hE

theorem Program.expressionHeight_le (hE : ∀ us e, E us e → e.expressionHeight ≤ limit)
    {ts : List Token} {root : Node} (h : Program E ts root) : root.expressionHeight ≤ limit := by
  cases h with
  | intro hitems =>
    refine hitems.expressionHeight_le ?_
    rintro us n (hlet | hfn)
    · exact hlet.expressionHeight_le hE
    · exact hfn.expressionHeight_le hE

end Grammar

theorem Parse.Fitting.expressionHeight_le {s : Surroundings} (ts : List Token) (e : Node)
    (h : Fitting s ts e) : e.expressionHeight ≤ s.limit := by
  obtain ⟨f, -, -, -, hheight, rfl⟩ := h
  rw [f.expressionHeight_node]
  exact hheight

theorem parse_expressionHeight_le {limit : Nat} {tokens : List Token.Placed} {root : Node}
    (h : parse limit tokens = .ok root) : root.expressionHeight ≤ limit :=
  (parse_eq_ok_iff.mp h).expressionHeight_le Parse.Fitting.expressionHeight_le

namespace Session

theorem Call.expressionHeight_le {s : Surroundings} {ts rest : List Token.Placed} {n : Node}
    (call : Call) (h : call.part s ts = .ok (n, rest)) : n.expressionHeight ≤ s.limit := by
  cases call with
  | binding =>
    obtain ⟨pre, -, hlet, -⟩ := (Parse.binding_exactly _ _ _).mp h
    exact hlet.expressionHeight_le Parse.Fitting.expressionHeight_le
  | function =>
    obtain ⟨pre, -, hfn, -⟩ := (Parse.function_exactly _ _ _).mp h
    exact hfn.expressionHeight_le Parse.Fitting.expressionHeight_le
  | expression =>
    obtain ⟨pre, -, hfit, -⟩ := (Parse.expression_exactly _ _ _).mp h
    exact hfit.expressionHeight_le

/-- The limit of a session is never raised, whatever has failed in it before. -/
theorem expressionHeight_le_of_mem_history {limit : Nat} {tokens : List Token.Placed}
    {calls : List Call} {step : Step} (hstep : step ∈ (start limit tokens).history calls)
    {node : Node} (hnode : step.result = .ok node) : node.expressionHeight ≤ limit := by
  obtain ⟨hmade, hover⟩ := over_of_mem_history hstep
  rcases hmade.outcome with ⟨found, rest, hpart, hresult, -⟩ | ⟨stop, -, hresult, -⟩
  · rw [hnode] at hresult
    cases hresult
    rw [← hover.limit_eq]
    exact step.call.expressionHeight_le hpart
  · rw [hnode] at hresult
    cases hresult

end Session

/-- What a limit makes of the tokens of a form that stand by themselves: both measures decide. -/
structure Form.ReadExactly (f : Form) (limit : Nat) (step : Session.Step) : Prop where
  accepted_iff : (∃ node, step.result = .ok node) ↔ max f.need f.height ≤ limit
  /-- Within the limit the tree of the form is found, and no token is left. -/
  of_le : max f.need f.height ≤ limit → step.result = .ok f.node ∧ step.after.rest = []
  /-- Beyond it the error is about the limit and names it. -/
  of_lt : limit < max f.need f.height → ∃ span, step.result = .error ⟨span, .tooDeep limit⟩ ∨
    step.result = .error ⟨span, .tooTall limit⟩

theorem Form.readExactly {f : Form} (hfits : f.Fits 0) (limit : Nat) {tokens : List Token.Placed}
    (htokens : f.tokens = tokens.map Token.Placed.token) :
    f.ReadExactly limit ((Session.start limit tokens).step .expression) := by
  have houtcome := ((Session.start limit tokens).step_made .expression).outcome
  by_cases hle : max f.need f.height ≤ limit
  · have hfound : Parse.expression ⟨limit, 0, endOf tokens⟩ tokens = .ok (f.node, []) :=
      Parse.expression_of_le htokens.symm hfits (by simp only; omega) (by simp only; omega)
    have hread : ((Session.start limit tokens).step .expression).result = .ok f.node ∧
        ((Session.start limit tokens).step .expression).after.rest = [] := by
      rcases houtcome with ⟨node, rest, hpart, hresult, hafter⟩ | ⟨stop, hpart, -, -⟩
      · cases hfound.symm.trans hpart
        exact ⟨hresult, by rw [hafter]⟩
      · cases hfound.symm.trans hpart
    exact ⟨⟨fun _ => hle, fun _ => ⟨_, hread.1⟩⟩, fun _ => hread, fun hlt => by omega⟩
  · obtain ⟨stop, hstop, hcause⟩ := Parse.expression_of_lt (s := ⟨limit, 0, endOf tokens⟩)
      htokens.symm hfits (by simp only; omega)
    have hread : ((Session.start limit tokens).step .expression).result = .error stop.error := by
      rcases houtcome with ⟨node, rest, hpart, -, -⟩ | ⟨stop', hpart, hresult, -⟩
      · cases hstop.symm.trans hpart
      · cases hstop.symm.trans hpart
        exact hresult
    refine ⟨⟨?_, fun h => absurd h hle⟩, fun h => absurd h hle, fun _ => ?_⟩
    · rintro ⟨node, hnode⟩
      rw [hread] at hnode
      cases hnode
    · refine ⟨stop.error.span, ?_⟩
      rw [hread, Except.error.injEq, Except.error.injEq]
      exact ParseError.eq_of_limit? hcause

/-- **The limit on expressions is exact.**  The expressions of the grammar are the forms that fit
    the loosest level. Where nothing but such a form stands, a new session finds an expression if
    and only if neither its need nor its height exceeds the limit; then it is the tree of the form,
    and otherwise the error names the limit. The height that the reader returns with a tree is the
    height of the tree, at every level and in any surroundings. So no expression of a tree that a
    call returns, whatever has failed before it, or that a program has is higher than the limit. -/
theorem expression_limit_exact (limit : Nat) (tokens : List Token.Placed) :
    (∀ e, Grammar.Expression 0 (tokens.map Token.Placed.token) e ↔
      ∃ f : Form, f.Fits 0 ∧ f.tokens = tokens.map Token.Placed.token ∧ f.node = e) ∧
    (∀ f : Form, f.Fits 0 → f.tokens = tokens.map Token.Placed.token →
      f.ReadExactly limit ((Session.start limit tokens).step .expression)) ∧
    (∀ s room least ts m rest, Parse.expressionIn room least s ts = .ok (m, rest) →
      m.height = m.node.expressionHeight) ∧
    (∀ calls, ∀ step ∈ (Session.start limit tokens).history calls, ∀ node,
      step.result = .ok node → node.expressionHeight ≤ limit) ∧
    ∀ root, parse limit tokens = .ok root → root.expressionHeight ≤ limit := by
  refine ⟨fun e => Grammar.expression_iff (by omega), ?_, ?_, ?_, ?_⟩
  · intro f hfits htokens
    exact Form.readExactly hfits limit htokens
  · intro s room least ts m rest h
    exact Parse.expressionIn_measured h
  · intro calls step hstep node hnode
    exact Session.expressionHeight_le_of_mem_history hstep hnode
  · intro root h
    exact parse_expressionHeight_le h

/-- `1 - 2 - 3` needs two levels and is three high, `((1))` needs three levels and is one high: for
    both of them 3 is the least limit. -/
theorem expression_limit_exact_chain_and_parentheses :
    let chain : List Token.Placed :=
      [⟨.integer 1, ⟨0, 1⟩⟩, ⟨.operator "-", ⟨2, 3⟩⟩, ⟨.integer 2, ⟨4, 5⟩⟩,
        ⟨.operator "-", ⟨6, 7⟩⟩, ⟨.integer 3, ⟨8, 9⟩⟩]
    let group : List Token.Placed :=
      [⟨.leftParen, ⟨0, 1⟩⟩, ⟨.leftParen, ⟨1, 2⟩⟩, ⟨.integer 1, ⟨2, 3⟩⟩, ⟨.rightParen, ⟨3, 4⟩⟩,
        ⟨.rightParen, ⟨4, 5⟩⟩]
    (∀ limit, (∃ node, ((Session.start limit chain).step .expression).result = .ok node) ↔
      3 ≤ limit) ∧
    ∀ limit, (∃ node, ((Session.start limit group).step .expression).result = .ok node) ↔
      3 ≤ limit := by
  intro chain group
  have hchain : (Form.operation (.operation (.integer false 1) .sub (.integer false 2)) .sub
      (.integer false 3)).Fits 0 := by
    simp [Form.Fits, Operator.known, Operator.precedence, Operator.leftLevel]
  have hgroup : (Form.group (.group (.integer false 1))).Fits 0 := by
    simp [Form.Fits]
  exact ⟨fun limit => ((expression_limit_exact limit chain).2.1 _ hchain rfl).accepted_iff,
    fun limit => ((expression_limit_exact limit group).2.1 _ hgroup rfl).accepted_iff⟩

end LetTree
