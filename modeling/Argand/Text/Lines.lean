/-!
Lines of a byte stream.

A line goes up to and with its line end; the last one may lack it.  The bytes of a line are taken
from the stream whether or not they are well-formed UTF-8.
-/

namespace Argand

namespace Text

/-- The byte that ends a line. -/
def lineEnd : UInt8 := 10

/-- The bytes of the first line, and what comes after it. -/
def splitLine : List UInt8 → List UInt8 × List UInt8
  | [] => ([], [])
  | b :: bytes =>
    if b = lineEnd then ([b], bytes)
    else
      let (line, rest) := splitLine bytes
      (b :: line, rest)

theorem splitLine_append (bytes : List UInt8) :
    (splitLine bytes).1 ++ (splitLine bytes).2 = bytes := by
  induction bytes with
  | nil => rfl
  | cons b bytes ih =>
    unfold splitLine
    split
    · rfl
    · simp [ih]

theorem length_splitLine_lt {bytes : List UInt8} (h : bytes ≠ []) :
    (splitLine bytes).2.length < bytes.length := by
  induction bytes with
  | nil => exact absurd rfl h
  | cons b bytes ih =>
    unfold splitLine
    split
    · simp
    · rcases bytes with _ | ⟨b', bytes⟩
      · simp [splitLine]
      · have := ih (List.cons_ne_nil _ _)
        simp only [List.length_cons] at this ⊢
        omega

/-- The characters that bytes stand for in UTF-8, if they are well-formed. -/
def decode? (bytes : List UInt8) : Option (List Char) :=
  (String.fromUTF8? bytes.toByteArray).map String.toList

end Text

end Argand
