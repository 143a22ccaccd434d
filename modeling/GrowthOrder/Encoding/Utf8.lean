/-!
UTF-8. A sequence of bytes is cut into pieces: each piece is a character, or a faulty stretch that
ends where the next byte can no longer continue the character that was begun. Decoding that allows
no faults and decoding that replaces them are both read off the pieces.
-/
namespace GrowthOrder.Utf8

/-- What the first byte of a longer character says: how many bytes follow it, in which range the
next of them lies, and its own bits. -/
structure Lead where
  trailing : Nat
  low : UInt8
  high : UInt8
  bits : Nat
  deriving DecidableEq

/-- What a byte begins, if it begins a character of several bytes. -/
def lead? (b : UInt8) : Option Lead :=
  if 0xc2 ≤ b ∧ b ≤ 0xdf then some ⟨1, 0x80, 0xbf, b.toNat - 0xc0⟩
  else if b = 0xe0 then some ⟨2, 0xa0, 0xbf, 0⟩
  else if b = 0xed then some ⟨2, 0x80, 0x9f, 0xd⟩
  else if 0xe1 ≤ b ∧ b ≤ 0xef then some ⟨2, 0x80, 0xbf, b.toNat - 0xe0⟩
  else if b = 0xf0 then some ⟨3, 0x90, 0xbf, 0⟩
  else if 0xf1 ≤ b ∧ b ≤ 0xf3 then some ⟨3, 0x80, 0xbf, b.toNat - 0xf0⟩
  else if b = 0xf4 then some ⟨3, 0x80, 0x8f, 4⟩
  else none

/-- Reads `n` further bytes, the first of them between `low` and `high`: the number that they
complete, unless one does not fit, and how many did. -/
def trail : (n : Nat) → (low high : UInt8) → (bits : Nat) → List UInt8 → Option Nat × Nat
  | 0, _, _, bits, _ => (some bits, 0)
  | _ + 1, _, _, _, [] => (none, 0)
  | n + 1, low, high, bits, b :: rest =>
    if low ≤ b ∧ b ≤ high then
      let (value, taken) := trail n 0x80 0xbf (bits * 64 + (b.toNat - 0x80)) rest
      (value, taken + 1)
    else (none, 0)

/-- The piece that begins with byte `b`: its character, if it is one, and how many of the bytes
after `b` belong to it. -/
def piece (b : UInt8) (rest : List UInt8) : Option Char × Nat :=
  if b < 0x80 then (some (Char.ofNat b.toNat), 0)
  else
    match lead? b with
    | none => (none, 0)
    | some lead =>
      let (value, taken) := trail lead.trailing lead.low lead.high lead.bits rest
      (value.map Char.ofNat, taken)

/-- The pieces of a sequence of bytes; a faulty one has no character. -/
def pieces : List UInt8 → List (Option Char)
  | [] => []
  | b :: rest =>
    let (char, taken) := piece b rest
    char :: pieces (rest.drop taken)
termination_by bytes => bytes.length

/-- The text of a sequence of bytes without faults. -/
def decode? (bytes : List UInt8) : Option String :=
  ((pieces bytes).mapM id).map String.ofList

/-- The text of a sequence of bytes, with U+FFFD for each fault. -/
def decodeLossy (bytes : List UInt8) : String :=
  String.ofList ((pieces bytes).map (·.getD '\ufffd'))

/-- The bytes of a text. -/
def encode (text : String) : List UInt8 :=
  text.toList.flatMap String.utf8EncodeChar

end GrowthOrder.Utf8
