/-!
# Byte offsets in text

Source positions count the bytes of the UTF-8 form, while text is handled as a list of characters.
Cutting at an offset is possible only between two characters; the functions here say so by
returning nothing for an offset inside a character or past the end.
-/

namespace LetTree.Text

/-- The number of bytes that a text takes. -/
def bytes : List Char → Nat
  | [] => 0
  | c :: cs => c.utf8Size + bytes cs

def dropBytes? : Nat → List Char → Option (List Char)
  | 0, cs => some cs
  | _ + 1, [] => none
  | n + 1, c :: cs => if c.utf8Size ≤ n + 1 then dropBytes? (n + 1 - c.utf8Size) cs else none

def takeBytes? : Nat → List Char → Option (List Char)
  | 0, _ => some []
  | _ + 1, [] => none
  | n + 1, c :: cs =>
    if c.utf8Size ≤ n + 1 then (takeBytes? (n + 1 - c.utf8Size) cs).map (c :: ·) else none

def slice? (start stop : Nat) (cs : List Char) : Option (List Char) :=
  if start ≤ stop then (dropBytes? start cs).bind (takeBytes? (stop - start)) else none

theorem bytes_append (as bs : List Char) : bytes (as ++ bs) = bytes as + bytes bs := by
  induction as with
  | nil => simp [bytes]
  | cons c cs ih => simp [bytes, ih, Nat.add_assoc]

theorem dropBytes?_bytes_append (as bs : List Char) :
    dropBytes? (bytes as) (as ++ bs) = some bs := by
  induction as with
  | nil => simp [bytes, dropBytes?]
  | cons c cs ih =>
    have hpos : 0 < c.utf8Size := c.utf8Size_pos
    obtain ⟨n, hn⟩ : ∃ n, c.utf8Size + bytes cs = n + 1 := ⟨_, (Nat.sub_add_cancel (by omega)).symm⟩
    have hle : c.utf8Size ≤ n + 1 := by omega
    have hsub : n + 1 - c.utf8Size = bytes cs := by omega
    simp [bytes, hn, dropBytes?, hle, hsub, ih]

theorem takeBytes?_bytes_append (as bs : List Char) :
    takeBytes? (bytes as) (as ++ bs) = some as := by
  induction as with
  | nil => simp [bytes, takeBytes?]
  | cons c cs ih =>
    have hpos : 0 < c.utf8Size := c.utf8Size_pos
    obtain ⟨n, hn⟩ : ∃ n, c.utf8Size + bytes cs = n + 1 := ⟨_, (Nat.sub_add_cancel (by omega)).symm⟩
    have hle : c.utf8Size ≤ n + 1 := by omega
    have hsub : n + 1 - c.utf8Size = bytes cs := by omega
    simp [bytes, hn, takeBytes?, hle, hsub, ih]

end LetTree.Text
