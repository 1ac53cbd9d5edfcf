import HeapStore.Bytes.Basic

/-!
# Text as UTF-8

Strings are stored as UTF-8. Writing is exact (`utf8`). Reading never
fails: bytes that are no UTF-8 are replaced, each maximal beginning of a
character that cannot be completed, and each byte that can begin none, by
one U+FFFD (`decodeLossy`). A reader that must not guess uses `decode?`,
which accepts exactly what `utf8` produces.

The reader is a machine that is fed one byte at a time. Its state,
`Partial`, is what it has seen of a character it cannot tell yet.

`prefixWithin` is the longest prefix of a text that fits a byte budget
without splitting a character. In the bytes of the text its end is found by
looking back from the budget for a place where no character is split
(`boundaryUpTo`).

Main statements: `encode_of_decode?_eq_some` (what the strict reader
accepts is the written form of its answer) and
`length_encode_prefixWithin_le` with `prefixWithin_prefix` (the fitted
prefix fits and is a prefix).
-/

namespace HeapStore

namespace Text

/-- The UTF-8 form of a list of characters. -/
def encode (chars : List Char) : Bytes := chars.flatMap String.utf8EncodeChar

/-- The UTF-8 form of a string. -/
def utf8 (text : String) : Bytes := encode text.toList

/-- The character shown for bytes that are no UTF-8. -/
def replacement : Char := '\uFFFD'

/-! ## Reading -/

/-- What the reader has seen of the current character: nothing, or a
`value` still lacking `missing + 1` bytes, of which the next has to lie
between `low` and `high`. -/
inductive Partial where
  | none
  | some (value missing : Nat) (low high : UInt8)
deriving DecidableEq, Repr

namespace Partial

/-- Reads a byte that begins a character. The bounds on the second byte
leave out overlong forms, surrogates and values above U+10FFFF. -/
def start (byte : UInt8) : List Char × Partial :=
  let value := byte.toNat
  if byte < 0x80 then ([Char.ofNat value], .none)
  else if byte < 0xC2 then ([replacement], .none)
  else if byte < 0xE0 then ([], .some (value - 0xC0) 0 0x80 0xBF)
  else if byte = 0xE0 then ([], .some 0 1 0xA0 0xBF)
  else if byte = 0xED then ([], .some 0xD 1 0x80 0x9F)
  else if byte < 0xF0 then ([], .some (value - 0xE0) 1 0x80 0xBF)
  else if byte = 0xF0 then ([], .some 0 2 0x90 0xBF)
  else if byte < 0xF4 then ([], .some (value - 0xF0) 2 0x80 0xBF)
  else if byte = 0xF4 then ([], .some 4 2 0x80 0x8F)
  else ([replacement], .none)

/-- Reads one byte: the characters it settles, and what is open after it.
A byte that cannot continue the open character closes it as unreadable
and begins the next one itself. -/
def step : Partial → UInt8 → List Char × Partial
  | .none, byte => start byte
  | .some value missing low high, byte =>
    if low ≤ byte ∧ byte ≤ high then
      let value := value * 64 + (byte.toNat - 0x80)
      match missing with
      | 0 => ([Char.ofNat value], .none)
      | missing + 1 => ([], .some value missing 0x80 0xBF)
    else
      let (chars, next) := start byte
      (replacement :: chars, next)

/-- What the end of the bytes makes of an open character. -/
def finish : Partial → List Char
  | .none => []
  | .some .. => [replacement]

end Partial

/-- The characters in `bytes`, read on from `state`. -/
def decodeFrom (state : Partial) : Bytes → List Char
  | [] => state.finish
  | byte :: rest => (state.step byte).1 ++ decodeFrom (state.step byte).2 rest

/-- The characters in `bytes`, with U+FFFD for what is no UTF-8. -/
def decodeLossy (bytes : Bytes) : List Char := decodeFrom .none bytes

/-- The characters in `bytes`, if they are UTF-8. -/
def decode? (bytes : Bytes) : Option (List Char) :=
  if encode (decodeLossy bytes) = bytes then some (decodeLossy bytes) else none

theorem encode_of_decode?_eq_some {bytes : Bytes} {chars : List Char}
    (h : decode? bytes = some chars) : encode chars = bytes := by
  grind [decode?]

example : decodeLossy [0x61, 0xE2, 0x82, 0x62, 0xFF] =
    ['a', replacement, 'b', replacement] := by decide +kernel

/-! ## Fitting a byte budget -/

/-- The longest prefix of the text whose UTF-8 form has at most `budget`
bytes. -/
def prefixWithin (budget : Nat) : List Char → List Char
  | [] => []
  | c :: rest =>
    if c.utf8Size ≤ budget then c :: prefixWithin (budget - c.utf8Size) rest else []

theorem prefixWithin_prefix (budget : Nat) (chars : List Char) :
    prefixWithin budget chars <+: chars := by
  induction chars generalizing budget with
  | nil => simp [prefixWithin]
  | cons c rest ih =>
    simp only [prefixWithin]
    split
    · exact (List.cons_prefix_cons).2 ⟨rfl, ih _⟩
    · exact List.nil_prefix

theorem length_encode_cons (c : Char) (rest : List Char) :
    (encode (c :: rest)).length = c.utf8Size + (encode rest).length := by
  simp [encode]

theorem length_encode_prefixWithin_le (budget : Nat) (chars : List Char) :
    (encode (prefixWithin budget chars)).length ≤ budget := by
  induction chars generalizing budget with
  | nil => simp [prefixWithin, encode]
  | cons c rest ih =>
    simp only [prefixWithin]
    split
    · have := ih (budget - c.utf8Size)
      rw [length_encode_cons]
      omega
    · simp [encode]

/-! ## Looking for a place to cut -/

/-- Whether a character can begin with this byte. The others, of which each
holds six bits, stand behind the first one. -/
def beginsCharacter (byte : UInt8) : Bool := byte < 0x80 || 0xC0 ≤ byte

/-- Whether a written text can be cut in front of byte `i`: at its ends, and
where a character begins. -/
def atBoundary (bytes : Bytes) (i : Nat) : Bool :=
  i = 0 || i = bytes.length || bytes[i]?.any beginsCharacter

/-- The last place up to byte `stop` where a written text can be cut, looked
for from there back. -/
def boundaryUpTo (bytes : Bytes) : Nat → Nat
  | 0 => 0
  | stop + 1 => if atBoundary bytes (stop + 1) then stop + 1 else boundaryUpTo bytes stop

end Text

end HeapStore
