/-!
# Cutting a text at a character

`splitAt separator` cuts a text at every occurrence of one character.
There is always one part more than there are separators, and the parts,
joined by the separator, give the text back (`intercalate_splitAt`).
-/

namespace HeapStore

namespace Text

/-- The parts of a text between the occurrences of `separator`. -/
def splitAt (separator : Char) : List Char → List (List Char)
  | [] => [[]]
  | c :: rest =>
    if c = separator then [] :: splitAt separator rest
    else
      match splitAt separator rest with
      | [] => [[c]]
      | part :: parts => (c :: part) :: parts

theorem splitAt_ne_nil (separator : Char) (text : List Char) :
    splitAt separator text ≠ [] := by
  cases text with
  | nil => simp [splitAt]
  | cons c rest => simp only [splitAt]; split <;> (try split) <;> simp

/-- Nothing is lost: the parts with the separator between them are the
text. -/
theorem intercalate_splitAt (separator : Char) (text : List Char) :
    [separator].intercalate (splitAt separator text) = text := by
  induction text with
  | nil => simp [splitAt]
  | cons c rest ih =>
    simp only [splitAt]
    cases h : splitAt separator rest with
    | nil => exact absurd h (splitAt_ne_nil separator rest)
    | cons part parts =>
      rw [h] at ih
      split
      · rename_i hc
        subst hc
        rw [← ih]
        simp [List.intercalate, List.intersperse]
      · cases parts <;> simp_all [List.intercalate, List.intersperse]

end Text

end HeapStore
