import LetTree.Proofs.Analysis.Order
import LetTree.Proofs.Analysis.Safety
import LetTree.Proofs.Source.Numerals

/-!
# Summaries of bindings

The text by which a checked binding is shown is a binding itself, once a `let` stands before it and
a semicolon after it. The name was an identifier in the program and is one again; an integer is
written as a literal of its own, the least one too; and a string that needs no escapes is its own
inside. The tokens come back one by one, since each stands before a blank or before a mark, or is a
minus sign before a digit.
-/

namespace LetTree

open Lexical

/-! ### Texts without gaps -/

namespace Token

/-- Wherever a text stands, it is read as these tokens. -/
def Yields (cs : List Char) (ts : List Token) : Prop :=
  ∀ offset, ∃ placed, lexFrom offset cs = .ok placed ∧ placed.map Placed.token = ts

namespace Yields

variable {cs text rest : List Char} {ts : List Token} {t : Token} {c : Char}

theorem nil : Yields [] [] := fun offset => ⟨[], lexFrom_nil offset, rfl⟩

theorem munch (hmunch : Munch cs text rest) (hread : Reads text (.token t))
    (hrest : Yields rest ts) : Yields cs (t :: ts) := by
  intro offset
  obtain ⟨placed, hplaced, rfl⟩ := hrest (offset + Text.bytes text)
  rw [lexFrom_munch hmunch hread, hplaced]
  exact ⟨_, rfl, rfl⟩

theorem blank (hc : isBlank c = true) (hrest : Yields rest ts) : Yields (c :: rest) ts := by
  intro offset
  have hrun : ∀ d ∈ [c], isBlank d = true := by simpa using hc
  have hskip : lexFrom offset (c :: rest) = _ := lexFrom_blanks hrun rest offset
  rw [hskip]
  exact hrest _

/-- A spelling is read as its token before a blank and before a mark. -/
theorem spelling (h : Spells text t) (hc : Parting c) (hrest : Yields (c :: rest) ts) :
    Yields (text ++ c :: rest) (t :: ts) :=
  munch (munch_token h.reads hc) h.reads hrest

theorem spaced (h : Spells text t) (hrest : Yields rest ts) :
    Yields (text ++ ' ' :: rest) (t :: ts) :=
  spelling h (by decide) (blank rfl hrest)

theorem last (h : Spells text t) : Yields text [t] :=
  munch (munch_whole h.reads) h.reads nil

/-- A minus sign is read by itself before the digits of a number. -/
theorem minus {base : Base} (h : (numeral base).Matches text) (hrest : Yields (text ++ rest) ts) :
    Yields ('-' :: (text ++ rest)) (.operator "-" :: ts) := by
  obtain ⟨d, digits, rfl, hd⟩ := Lexeme.head_of_numeral h
  have hhead : (d :: digits ++ rest).head? ≠ some '>' := by
    intro heq
    obtain rfl := Option.some.inj heq
    exact absurd hd (by decide)
  have hread : Reads ['-'] (.token (.operator "-")) := (@Spells.operator .sub rfl).reads
  exact munch (munch_minus hhead) hread hrest

end Yields

end Token

open Token

/-! ### Literals -/

/-- A text is a literal of a constant: before a mark it is read as a form without operators and
    parentheses whose tree is the constant. -/
def LiteralOf (text : List Char) (v : Value) : Prop :=
  ∃ f : Form, f.Fits 0 ∧ f.need = 1 ∧ f.height = 1 ∧ f.node = .value v ∧
    ∀ c rest ts, Parting c → Yields (c :: rest) ts → Yields (text ++ c :: rest) (f.tokens ++ ts)

/-- Every integer is written as a literal, the least one by a number that is none without its
    sign. -/
theorem literalOf_int (i : Int64) : LiteralOf (Value.int i).text.toList (.int i) := by
  obtain ⟨negative, n, hi, hne⟩ := exists_signed i.toInt
  obtain ⟨hmatch, hvalue⟩ := numeral_repr n
  have hrange : InRange (signed negative n) := hi ▸ inRange_toInt i
  have htoNat : (UInt64.ofNat n).toNat = n :=
    UInt64.toNat_ofNat_of_lt' (lt_of_inRange_signed hrange)
  rw [← htoNat] at hrange
  have hnode : Form.literalValue negative (.ofNat n) = i := by
    rw [← Int64.toInt_inj, Form.toInt_literalValue hrange, htoNat, hi]
  have hdigits : Spells n.repr.toList (.integer (.ofNat n)) :=
    .integer hmatch (hvalue.trans htoNat.symm)
  refine ⟨.integer negative (.ofNat n), Form.fits_integer_iff.mpr hrange, rfl, rfl, ?_, ?_⟩
  · rw [Form.node, hnode]
  · intro c rest ts hc hrest
    have hnumber := Yields.spelling hdigits hc hrest
    rw [Value.text, hi, toString_signed hne, String.toList_append, List.append_assoc]
    cases negative with
    | false => exact hnumber
    | true =>
      -- The sign is a token of its own, and the parser puts it together with the number.
      have hsigned := Yields.minus hmatch hnumber
      exact hsigned

theorem escape_eq_self {s : List Char} (hquote : '"' ∉ s) (hslash : '\\' ∉ s) : escape s = s := by
  induction s with
  | nil => rfl
  | cons c s ih =>
    simp only [List.mem_cons, not_or] at hquote hslash
    have hplain : ¬ (c = '\\' ∨ c = '"') :=
      not_or.mpr ⟨Ne.symm hslash.1, Ne.symm hquote.1⟩
    rw [escape, if_neg hplain, ih hquote.2 hslash.2]

/-- A string in which nothing has to be escaped is written as itself, whatever else it holds. -/
theorem literalOf_string {s : String} (hquote : '"' ∉ s.toList) (hslash : '\\' ∉ s.toList) :
    LiteralOf (Value.string s).text.toList (.string s) := by
  have hspells := Spells.string s
  rw [escape_eq_self hquote hslash] at hspells
  have htext : (Value.string s).text.toList = '"' :: s.toList ++ ['"'] := by simp [Value.text]
  rw [htext]
  refine ⟨.string s, trivial, rfl, rfl, rfl, ?_⟩
  intro c rest ts hc hrest
  exact .spelling hspells hc hrest

/-! ### Bindings -/

theorem spells_type (ty : Ty) : Spells ty.text.toList (.type ty) := by
  refine .word ?_
  cases ty <;> decide

/-- The tokens of a binding, with those of its initializer in their place. -/
def letTokens (name : String) (ty : Ty) (init : List Token) : List Token :=
  .letWord :: .identifier name :: .colon :: .type ty :: .equals :: (init ++ [.semicolon])

theorem yields_letTokens {name : String} (hname : Spells name.toList (.identifier name)) (ty : Ty)
    {text : List Char} {init : List Token}
    (h : Yields (text ++ [';']) (init ++ [.semicolon])) :
    Yields (['l', 'e', 't'] ++ ' ' :: (name.toList ++ ':' :: ' ' :: (ty.text.toList ++
      ' ' :: '=' :: ' ' :: (text ++ [';'])))) (letTokens name ty init) := by
  have hequals : Spells ['='] .equals := .punctuation (by decide)
  have hcolon : Spells [':'] .colon := .punctuation (by decide)
  have hlet : Spells ['l', 'e', 't'] .letWord := .word (by decide)
  have htyped := Yields.spaced (spells_type ty) (Yields.spaced hequals h)
  have hnamed := Yields.spelling hname (by decide) (Yields.spaced hcolon htyped)
  exact Yields.spaced hlet hnamed

/-- A binding of a name to a literal, written as summaries are, is read as this one binding, at
    every limit but zero. -/
theorem parse_of_literal {name : String} (hname : Spells name.toList (.identifier name)) (ty : Ty)
    {text : String} {v : Value} (h : LiteralOf text.toList v) :
    ∃ tokens, lex ("let " ++ (name ++ ": " ++ ty.text ++ " = " ++ text) ++ ";") = .ok tokens ∧
      ∀ limit, 1 ≤ limit →
        parse limit tokens = .ok (.statements [.binding ⟨ty, name⟩ (.value v)]) := by
  obtain ⟨f, hfits, hneed, hheight, hnode, hliteral⟩ := h
  have hsemicolon : Yields [';'] [.semicolon] := .last (.punctuation (by decide))
  have hend := hliteral ';' [] _ (by decide) hsemicolon
  obtain ⟨tokens, hlex, htokens⟩ := yields_letTokens hname ty hend 0
  refine ⟨tokens, ?_, ?_⟩
  · rw [lex, ← hlex]
    simp
  · intro limit hlimit
    have hfitting : Parse.Fitting ⟨limit, 0, endOf tokens⟩ f.tokens (.value v) :=
      ⟨f, rfl, hfits, by simp only; omega, by simp only; omega, hnode⟩
    have hlet : Grammar.Let (Parse.Fitting ⟨limit, 0, endOf tokens⟩)
        (letTokens name ty f.tokens) (.binding ⟨ty, name⟩ (.value v)) := .intro hfitting
    have hprogram := Grammar.Program.intro (.cons (Or.inl hlet) .nil)
    rw [List.append_nil, ← htokens] at hprogram
    exact parse_eq_ok_iff.mpr hprogram

/-! ### Names -/

theorem Token.mem_of_mem_afterLets {t : Token} {ts : List Token} (h : some t ∈ afterLets ts) :
    t ∈ ts := by
  induction ts with
  | nil => cases h
  | cons u ts ih =>
    rw [afterLets] at h
    split at h
    · rcases List.mem_cons.mp h with hnext | hlater
      · exact List.mem_cons_of_mem u (List.mem_of_head? hnext.symm)
      · exact List.mem_cons_of_mem u (ih hlater)
    · exact List.mem_cons_of_mem u (ih h)

/-- The token of a name was read from that name, which is no reserved word. -/
theorem spells_of_reads {text : List Char} {name : String}
    (h : Reads text (.token (.identifier name))) : Spells name.toList (.identifier name) := by
  have hwords : ∀ w ∈ words, w.2 ≠ .identifier name := by simp [words]
  have hmarks : ∀ p ∈ punctuation, p.2 ≠ .identifier name := by simp [punctuation]
  cases h with
  | identifier h hword =>
    rw [String.toList_ofList]
    exact .identifier h hword
  | word h => exact absurd rfl (hwords _ h)
  | punctuation h => exact absurd rfl (hmarks _ h)

/-- The names of a program that was read from a source are identifiers. -/
theorem spells_name {source : String} {tokens : List Token.Placed} {limit : Nat} {root : Node}
    {bs : List Binding} (hlex : lex source = .ok tokens) (hparse : parse limit tokens = .ok root)
    (hbindings : root.bindings = .ok bs) {b : Binding} (hb : b ∈ bs) :
    Spells b.name.toList (.identifier b.name) := by
  -- A checked name is one of those that follow a `let`, and so a token of the source.
  have hafter := (sentence_of_parse hparse).introduces []
  rw [List.append_nil, afterLets, List.append_nil] at hafter
  rw [root.bindings_eq_mapM, Result.mapM_eq_ok_iff] at hbindings
  have hname : b.name ∈ root.written.map (·.1.name) :=
    map_name_of_checked hbindings ▸ List.mem_map_of_mem hb
  obtain ⟨w, hw, hwname⟩ := List.mem_map.mp hname
  have hmem : some (.identifier b.name) ∈ afterLets (tokens.map Placed.token) := by
    rw [hafter, ← hwname]
    exact List.mem_map_of_mem hw
  obtain ⟨t, ht, htoken⟩ := List.mem_map.mp (mem_of_mem_afterLets hmem)
  obtain ⟨text, -, hread⟩ := (laid_of_lexFrom source.toList 0 tokens hlex).covers [] rfl t ht
  rw [htoken] at hread
  exact spells_of_reads hread

/-! ### Summaries -/

/-- A binding whose summary can be read back: of type `int`, or of type `string` with a known text
    that needs no escapes. -/
def Binding.Rereadable (b : Binding) : Prop :=
  b.ty = .int ∨
    b.ty = .string ∧ ∃ s, b.value = .string s ∧ '"' ∉ s.toList ∧ '\\' ∉ s.toList

/-- The value of such a binding is a constant with a literal, and the binding is what is found when
    its name is bound to the constant. -/
theorem Binding.Rereadable.exists_value {b : Binding} (h : b.Rereadable) (hsettled : b.Settled) :
    ∃ v : Value, b.value.text = v.text ∧ LiteralOf v.text.toList v ∧
      (Node.statements [.binding ⟨b.ty, b.name⟩ (.value v)]).bindings = .ok [b] := by
  obtain ⟨name, ty, value⟩ := b
  rcases hsettled with ⟨hty, n, hvalue⟩ | ⟨hty, hvalue⟩
  · cases hty
    cases hvalue
    exact ⟨.int n, rfl, literalOf_int n, rfl⟩
  · cases hty
    rcases h with hint | ⟨-, s, hs, hquote, hslash⟩
    · cases hint
    · cases hs
      exact ⟨.string s, rfl, literalOf_string hquote hslash, rfl⟩

/-- **Summaries are bindings themselves.**  For every binding that the check of a program returns
    and whose value is an integer, or a text without quotes and backslashes, its summary between a
    `let` and a semicolon is read into tokens, is a program at every limit but zero, and the check
    of that program returns this binding and no other. -/
theorem summary_reread (source : String) (tokens : List Token.Placed) (limit : Nat) (root : Node)
    (bs : List Binding) (hlex : lex source = .ok tokens) (hparse : parse limit tokens = .ok root)
    (hbindings : root.bindings = .ok bs) (b : Binding) (hb : b ∈ bs) (hvalue : b.Rereadable) :
    ∃ tokens', lex ("let " ++ b.text ++ ";") = .ok tokens' ∧ ∀ limit', 1 ≤ limit' →
      ∃ root', parse limit' tokens' = .ok root' ∧ root'.bindings = .ok [b] := by
  have hsafe := (sentence_of_parse hparse).isProgram.bindings_safe
  rw [hbindings] at hsafe
  obtain ⟨v, htext, hliteral, hfound⟩ := hvalue.exists_value (hsafe b hb)
  obtain ⟨tokens', hlex', hparse'⟩ :=
    parse_of_literal (spells_name hlex hparse hbindings hb) b.ty hliteral
  rw [← htext] at hlex'
  exact ⟨tokens', hlex', fun limit' hlimit' => ⟨_, hparse' limit' hlimit', hfound⟩⟩

/-- `let m: auto = -9223372036854775807 - 1;` and a string with a line feed between two marks of
    comments. The least integer is shown as a literal that the program did not have, and the marks
    of comments are text when they are read again. -/
theorem summary_reread_least :
    let source := "let m: auto = -9223372036854775807 - 1; let s: auto = \"/*\n//\";"
    let least : Binding := ⟨"m", .int, .int (-9223372036854775808)⟩
    let marks : Binding := ⟨"s", .string, .string "/*\n//"⟩
    (∃ tokens root, lex source = .ok tokens ∧ parse 2 tokens = .ok root ∧
      root.bindings = .ok [least, marks]) ∧
    (∃ tokens, lex "let m: int = -9223372036854775808;" = .ok tokens ∧ ∀ limit, 1 ≤ limit →
      ∃ root, parse limit tokens = .ok root ∧ root.bindings = .ok [least]) ∧
    (∃ tokens, lex "let s: string = \"/*\n//\";" = .ok tokens ∧ ∀ limit, 1 ≤ limit →
      ∃ root, parse limit tokens = .ok root ∧ root.bindings = .ok [marks]) := by
  intro source least marks
  let tokens : List Token.Placed :=
    [⟨.letWord, ⟨0, 3⟩⟩, ⟨.identifier "m", ⟨4, 5⟩⟩, ⟨.colon, ⟨5, 6⟩⟩, ⟨.type .auto, ⟨7, 11⟩⟩,
      ⟨.equals, ⟨12, 13⟩⟩, ⟨.operator "-", ⟨14, 15⟩⟩, ⟨.integer 9223372036854775807, ⟨15, 34⟩⟩,
      ⟨.operator "-", ⟨35, 36⟩⟩, ⟨.integer 1, ⟨37, 38⟩⟩, ⟨.semicolon, ⟨38, 39⟩⟩,
      ⟨.letWord, ⟨40, 43⟩⟩, ⟨.identifier "s", ⟨44, 45⟩⟩, ⟨.colon, ⟨45, 46⟩⟩,
      ⟨.type .auto, ⟨47, 51⟩⟩, ⟨.equals, ⟨52, 53⟩⟩, ⟨.string "/*\n//", ⟨54, 61⟩⟩,
      ⟨.semicolon, ⟨61, 62⟩⟩]
  let root : Node := .statements
    [.binding ⟨.auto, "m"⟩
      (.binary .sub (.value (.int (-9223372036854775807))) (.value (.int 1))),
      .binding ⟨.auto, "s"⟩ (.value (.string "/*\n//"))]
  have hlex : lex source = .ok tokens := by
    decide +kernel
  have hparse : parse 2 tokens = .ok root := by
    with_unfolding_all rfl
  have hbindings : root.bindings = .ok [least, marks] := by
    with_unfolding_all rfl
  refine ⟨⟨tokens, root, hlex, hparse, hbindings⟩, ?_, ?_⟩
  · have hleast : least.Rereadable := .inl rfl
    exact summary_reread source tokens 2 root _ hlex hparse hbindings least (by simp) hleast
  · have hmarks : marks.Rereadable := .inr ⟨rfl, _, rfl, by decide, by decide⟩
    exact summary_reread source tokens 2 root _ hlex hparse hbindings marks (by simp) hmarks

end LetTree
