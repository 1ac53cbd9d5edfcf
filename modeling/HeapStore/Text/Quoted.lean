import HeapStore.Text.ExtendingMark
import HeapStore.Text.Unprintable

/-!
# Quoted text in messages

A message that repeats a piece of input shows it between double quotes,
so that blanks at its ends and invisible characters can be seen. Quotes,
backslashes and the common controls get a backslash form, every other
character that is unprintable or an extending mark is shown by its code
point in lower-case hexadecimal, and the rest stands for itself. A single
quote needs no escape between double quotes.
-/

namespace HeapStore

namespace Text

/-- The lower-case hexadecimal digits of `n`, without leading zeroes. -/
def hexDigits (n : Nat) : String := String.ofList (Nat.toDigits 16 n)

/-- How one character is shown between double quotes. -/
def quoteChar (c : Char) : String :=
  match c with
  | '"' => "\\\""
  | '\\' => "\\\\"
  | '\t' => "\\t"
  | '\n' => "\\n"
  | '\r' => "\\r"
  | '\x00' => "\\0"
  | c =>
    if isExtendingMark c || isUnprintable c then "\\u\x7b" ++ hexDigits c.toNat ++ "\x7d"
    else c.toString

/-- `text` between double quotes, with its special characters escaped. -/
def quoted (text : String) : String :=
  "\"" ++ String.join (text.toList.map quoteChar) ++ "\""

example : quoted "q\"\n" = "\"q\\\"\\n\"" := by decide +kernel

example : quoted "a\u0301ﾞ" = "\"a\\u\x7b301\x7dﾞ\"" := by decide +kernel

example : quoted "it's \x1b" = "\"it's \\u\x7b1b\x7d\"" := by decide +kernel

end Text

end HeapStore
