import LetTree.Grammar.Parse
import LetTree.Token.Lexer

/-!
# Relocation

A map of places applied to whatever carries places: tokens, errors and the surroundings of a step.
The map that matters most is the shift by a number of bytes, which is what happens to a text when
other text is put in front of it.
-/

namespace LetTree

/-- The span that lies `k` bytes further on. -/
def Span.shift (k : Nat) (s : Span) : Span := ⟨s.start + k, s.stop + k⟩

/-- A map of places that may be applied before or after merging. -/
def Span.Respects (φ : Span → Span) : Prop := ∀ a b, φ (a.merge b) = (φ a).merge (φ b)

theorem Span.shift_respects (k : Nat) : Respects (shift k) := by
  intro a b
  simp only [shift, merge, Span.mk.injEq]
  omega

variable (φ : Span → Span)

def Token.Placed.relocate (t : Token.Placed) : Token.Placed := ⟨t.token, φ t.span⟩

@[simp] theorem Token.Placed.relocate_mk (token : Token) (span : Span) :
    (⟨token, span⟩ : Token.Placed).relocate φ = ⟨token, φ span⟩ := rfl

def LexError.relocate (e : LexError) : LexError := ⟨φ e.span, e.cause⟩

def ParseError.relocate (e : ParseError) : ParseError := ⟨φ e.span, e.cause⟩

def Surroundings.relocate (s : Surroundings) : Surroundings := ⟨s.limit, s.depth, φ s.ending⟩

def Stop.relocate (stop : Stop) : Stop :=
  ⟨stop.error.relocate φ, stop.rest.map (·.relocate φ), stop.opened⟩

/-- The end of tokens that follow others is that of the tokens alone, if there are any. -/
theorem endOf_append {us ts : List Token.Placed} (h : ts ≠ []) : endOf (us ++ ts) = endOf ts := by
  have hlast := List.getLast?_eq_some_getLast h
  rw [endOf, endOf, List.getLast?_append, hlast, Option.some_or]

theorem endOf_shift {ts : List Token.Placed} (h : ts ≠ []) (k : Nat) :
    endOf (ts.map (·.relocate (Span.shift k))) = (endOf ts).shift k := by
  have hlast := List.getLast?_eq_some_getLast h
  rw [endOf, endOf, List.getLast?_map, hlast]
  rfl

end LetTree
