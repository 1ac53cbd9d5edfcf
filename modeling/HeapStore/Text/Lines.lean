/-!
# Lines of a text

A line ends at a line feed, and a carriage return right before that line
feed belongs to the line end. A last line without a line feed is a line
as it stands, carriage return included; a text that ends with a line feed
has no further, empty line.
-/

namespace HeapStore

namespace Text

/-- `line`, given last character first, without the carriage return of
its line end. -/
def endLine : List Char → List Char
  | '\r' :: line => line.reverse
  | line => line.reverse

/-- The lines of a text, where `line` has been read so far, last
character first. -/
def linesFrom (line : List Char) : List Char → List (List Char)
  | [] => if line.isEmpty then [] else [line.reverse]
  | '\n' :: rest => endLine line :: linesFrom [] rest
  | c :: rest => linesFrom (c :: line) rest

/-- The lines of `text`, in order. -/
def lines (text : List Char) : List (List Char) := linesFrom [] text

example : lines "a\r\n\nb\r".toList = ["a".toList, [], "b\r".toList] := by decide +kernel

end Text

end HeapStore
