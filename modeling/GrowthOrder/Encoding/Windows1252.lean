/-!
The encoding of one byte per character that extends Latin-1. Every byte has a character.
-/
namespace GrowthOrder.Windows1252

/-- The characters of the bytes from 80 to 9F; where the set leaves a gap, the byte's own number. -/
def upper : List Nat :=
  [0x20ac, 0x81, 0x201a, 0x192, 0x201e, 0x2026, 0x2020, 0x2021,
    0x2c6, 0x2030, 0x160, 0x2039, 0x152, 0x8d, 0x17d, 0x8f,
    0x90, 0x2018, 0x2019, 0x201c, 0x201d, 0x2022, 0x2013, 0x2014,
    0x2dc, 0x2122, 0x161, 0x203a, 0x153, 0x9d, 0x17e, 0x178]

def char (b : UInt8) : Char :=
  if b < 0x80 then Char.ofNat b.toNat
  else Char.ofNat (upper.getD (b.toNat - 0x80) b.toNat)

def decode (bytes : List UInt8) : String :=
  String.ofList (bytes.map char)

end GrowthOrder.Windows1252
