import LetTree.Operator
import LetTree.Proofs.Source.Positions

/-!
# Operators of tokens

A token is looked up by its first three characters, and still it is an operator only as a whole: no
spelling has three characters, so that a token that is cut off has too many left to be one. The cut
is made in the bytes of the token, where its fourth character begins, and therefore between two
characters, whatever the token holds.
-/

namespace LetTree

namespace Text

/-- The first `n` characters of a text, taken from its bytes: those before the first byte of the
    next character, or all of them if the text has no more characters. -/
def leading? (n : Nat) (cs : List Char) : Option (List Char) :=
  match (indexed 0 cs)[n]? with
  | some (stop, _) => slice? 0 stop cs
  | none => some cs

theorem getElem?_indexed (n offset : Nat) (cs : List Char) :
    (indexed offset cs)[n]? = cs[n]?.map fun c => (offset + bytes (cs.take n), c) := by
  induction cs generalizing n offset with
  | nil => rfl
  | cons c cs ih =>
    cases n with
    | zero => rfl
    | succ n =>
      rw [indexed, List.getElem?_cons_succ, List.getElem?_cons_succ, ih, List.take_succ_cons,
        bytes, Nat.add_assoc]

theorem slice?_bytes_take (n : Nat) (cs : List Char) :
    slice? 0 (bytes (cs.take n)) cs = some (cs.take n) := by
  have hcovers : Span.Covers cs (cs.take n) ⟨0, bytes (cs.take n)⟩ := by
    refine ⟨[], cs.drop n, ?_, ?_⟩
    · rw [List.nil_append, List.take_append_drop]
    · rw [bytes, Nat.zero_add]
  exact hcovers.slice

/-- The place where a character begins splits no character. -/
theorem leading?_eq_take (n : Nat) (cs : List Char) : leading? n cs = some (cs.take n) := by
  rw [leading?, getElem?_indexed]
  rcases hnext : cs[n]? with _ | c
  · rw [List.take_of_length_le (List.getElem?_eq_none_iff.mp hnext)]
    rfl
  · simp only [Option.map_some, Nat.zero_add]
    exact slice?_bytes_take n cs

end Text

namespace Operator

variable {token : String} {op : Operator}

theorem known_iff : op.known = true ↔ op ≠ unknown := by
  cases op <;> decide

theorem ofToken_eq_unknown_iff :
    ofToken token = unknown ↔ ∀ op : Operator, op ≠ unknown → token ≠ op.text := by
  constructor
  · intro hunknown op hop htext
    rw [(ofToken_eq_iff (known_iff.mpr hop)).mpr htext] at hunknown
    exact hop hunknown
  · intro hfree
    by_contra hne
    exact hfree _ hne (text_ofToken (known_iff.mpr hne)).symm

/-- A token as long as what is looked up is longer than every spelling. -/
theorem ofToken_of_three_le (h : 3 ≤ token.length) : ofToken token = unknown := by
  refine ofToken_eq_unknown_iff.mpr ?_
  rintro op hop rfl
  have hlength := length_text_lt (known_iff.mpr hop)
  rw [String.length_toList] at hlength
  omega

/-! ### Reading -/

theorem read_of_unknown (h : ofToken token = unknown) : read token = .error ⟨token⟩ := by
  rw [read, h]

theorem read_of_ne_unknown (h : ofToken token ≠ unknown) : read token = .ok (ofToken token) := by
  rw [read]
  split
  · next hunknown => exact absurd hunknown h
  · rfl

theorem read_eq_ok_iff : read token = .ok op ↔ op ≠ unknown ∧ token = op.text := by
  by_cases hunknown : ofToken token = unknown
  · rw [read_of_unknown hunknown]
    refine iff_of_false nofun ?_
    rintro ⟨hop, htext⟩
    exact ofToken_eq_unknown_iff.mp hunknown op hop htext
  · rw [read_of_ne_unknown hunknown, Except.ok.injEq]
    constructor
    · rintro rfl
      exact ⟨hunknown, (text_ofToken (known_iff.mpr hunknown)).symm⟩
    · rintro ⟨hop, htext⟩
      exact (ofToken_eq_iff (known_iff.mpr hop)).mpr htext

theorem read_eq_error_iff {e : Unrecognised} :
    read token = .error e ↔
      (∀ op : Operator, op ≠ unknown → token ≠ op.text) ∧ e = ⟨token⟩ := by
  rw [← ofToken_eq_unknown_iff]
  by_cases hunknown : ofToken token = unknown
  · rw [read_of_unknown hunknown, Except.error.injEq, eq_comm]
    exact (and_iff_right hunknown).symm
  · rw [read_of_ne_unknown hunknown]
    exact iff_of_false nofun fun h => hunknown h.1

end Operator

/-- **A token is an operator only as a whole.**  A token gives an operator exactly if it is the
    operator's text in full; every other token is unknown, and reading it fails with the token as it
    is. So no token of three characters or more passes for an operator, although no more than its
    first three characters are compared with the texts of operators. Those can be taken from the
    bytes of every token. -/
theorem operators_spelled_in_full (token : String) :
    (∀ op : Operator, op ≠ .unknown → (Operator.ofToken token = op ↔ token = op.text)) ∧
    (Operator.ofToken token = .unknown ↔ ∀ op : Operator, op ≠ .unknown → token ≠ op.text) ∧
    (∀ op : Operator, Operator.read token = .ok op ↔ op ≠ .unknown ∧ token = op.text) ∧
    (∀ e : Operator.Unrecognised, Operator.read token = .error e ↔
      (∀ op : Operator, op ≠ .unknown → token ≠ op.text) ∧ e = ⟨token⟩) ∧
    (3 ≤ token.length → Operator.ofToken token = .unknown) ∧
    ∃ key, Text.leading? 3 token.toList = some key ∧ key = token.toList.take 3 ∧
      ∀ op : Operator, op ≠ .unknown →
        (Operator.ofToken token = op ↔ String.ofList key = op.text) := by
  refine ⟨?_, Operator.ofToken_eq_unknown_iff, ?_, ?_, Operator.ofToken_of_three_le, ?_⟩
  · intro op hop
    exact Operator.ofToken_eq_iff (Operator.known_iff.mpr hop)
  · intro op
    exact Operator.read_eq_ok_iff
  · intro e
    exact Operator.read_eq_error_iff
  · refine ⟨_, Text.leading?_eq_take 3 token.toList, rfl, ?_⟩
    intro op hop
    have hknown := Operator.known_iff.mpr hop
    rw [Operator.ofToken_eq_iff hknown, Operator.ofList_take_eq_text_iff hknown]

/-- The spelling of an operator with more characters after it, each of them of two bytes. -/
theorem operators_spelled_in_full_two_bytes :
    Operator.power ≠ .unknown ∧ "^^éé" ≠ Operator.power.text ∧
    Operator.ofToken "^^éé" ≠ .power ∧
    3 ≤ "^^éé".length ∧ Operator.ofToken "^^éé" = .unknown ∧
    Operator.read "^^éé" = .error ⟨"^^éé"⟩ ∧
    ∃ key, Text.leading? 3 "^^éé".toList = some key ∧ key = ['^', '^', 'é'] ∧
      (Operator.ofToken "^^éé" = .power ↔ String.ofList key = Operator.power.text) := by
  obtain ⟨hknown, hunknown, -, herror, hlong, key, htaken, hkey, hcompared⟩ :=
    operators_spelled_in_full "^^éé"
  have hpower : Operator.power ≠ .unknown := by decide
  have htext : "^^éé" ≠ Operator.power.text := by decide
  have hlength : 3 ≤ "^^éé".length := by decide
  have hfree := hunknown.mp (hlong hlength)
  exact ⟨hpower, htext, mt (hknown _ hpower).mp htext, hlength, hlong hlength,
    (herror _).mpr ⟨hfree, rfl⟩, key, htaken, hkey, hcompared _ hpower⟩

end LetTree
