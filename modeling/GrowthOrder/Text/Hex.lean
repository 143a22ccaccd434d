/-!
Digits to the base sixteen.
-/
namespace GrowthOrder.Text

def isHexDigit (c : Char) : Bool :=
  c.isDigit || ('a' ≤ c && c ≤ 'f') || ('A' ≤ c && c ≤ 'F')

/-- The value of a digit; letters count in either case. -/
def digitValue (c : Char) : Nat :=
  if c.isDigit then c.toNat - '0'.toNat
  else if 'a' ≤ c then c.toNat - 'a'.toNat + 10
  else c.toNat - 'A'.toNat + 10

/-- The number that digits to a base make. -/
def numberOf (base : Nat) (digits : List Char) : Nat :=
  digits.foldl (fun n c => n * base + digitValue c) 0

/-- The character whose number is written in the first `count` digits to the base sixteen. -/
def numberedChar? (count : Nat) (cs : List Char) : Option Char :=
  let digits := cs.take count
  let n := numberOf 16 digits
  if digits.length = count ∧ digits.all isHexDigit ∧ n.isValidChar then some (Char.ofNat n)
  else none

/-- The bytes that pairs of digits stand for, if the text is made of such pairs. -/
def hexBytes? : List Char → Option (List UInt8)
  | [] => some []
  | a :: b :: rest =>
    if isHexDigit a ∧ isHexDigit b then
      (hexBytes? rest).map ((numberOf 16 [a, b]).toUInt8 :: ·)
    else none
  | [_] => none

end GrowthOrder.Text
