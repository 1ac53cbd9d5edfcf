/-!
# Blank characters

Schema text is cut at white space. The blanks are the code points with
the Unicode property White_Space - more than the ASCII ones, and without
the zero-width characters.

`trim` drops blanks at both ends, `words` yields the maximal runs of
characters that are not blank.
-/

namespace HeapStore

namespace Text

/-- Ranges of blank code points, ends included, ascending. -/
def blankRanges : List (Nat × Nat) :=
  [(0x9, 0xD), (0x20, 0x20), (0x85, 0x85), (0xA0, 0xA0), (0x1680, 0x1680), (0x2000, 0x200A),
    (0x2028, 0x2029), (0x202F, 0x202F), (0x205F, 0x205F), (0x3000, 0x3000)]

/-- Whether `c` is white space. -/
def isBlank (c : Char) : Bool :=
  blankRanges.any fun range => range.1 ≤ c.toNat && c.toNat ≤ range.2

/-- `text` without its leading blanks. -/
def trimStart (text : List Char) : List Char := text.dropWhile isBlank

/-- `text` without the blanks at its two ends. -/
def trim (text : List Char) : List Char :=
  (trimStart (trimStart text).reverse).reverse

/-- The maximal blank-free runs of `text`, where `run` is the run that
has been read so far, last character first. -/
def wordsFrom (run : List Char) : List Char → List (List Char)
  | [] => if run.isEmpty then [] else [run.reverse]
  | c :: rest =>
    if isBlank c then
      if run.isEmpty then wordsFrom [] rest else run.reverse :: wordsFrom [] rest
    else wordsFrom (c :: run) rest

/-- The maximal blank-free runs of `text`, in order. -/
def words (text : List Char) : List (List Char) := wordsFrom [] text

end Text

end HeapStore
