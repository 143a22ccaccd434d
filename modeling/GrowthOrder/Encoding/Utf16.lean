/-!
UTF-16 in both byte orders. A surrogate without its partner becomes U+FFFD, and so does a single
byte at the end; where the text ends within a pair, one U+FFFD stands for all that is left.
-/
namespace GrowthOrder.Utf16

inductive ByteOrder
  | little
  | big
  deriving DecidableEq

/-- The unit that two bytes make. -/
def ByteOrder.unit (order : ByteOrder) (a b : UInt8) : Nat :=
  match order with
  | little => a.toNat + 256 * b.toNat
  | big => 256 * a.toNat + b.toNat

/-- The first units of pairs. -/
def isHigh (u : Nat) : Bool :=
  0xd800 ≤ u && u < 0xdc00

/-- The second units of pairs. -/
def isLow (u : Nat) : Bool :=
  0xdc00 ≤ u && u < 0xe000

/-- The character of a pair. -/
def joined (high low : Nat) : Char :=
  Char.ofNat (0x10000 + (high - 0xd800) * 0x400 + (low - 0xdc00))

/-- The characters of a sequence of bytes. -/
def chars (order : ByteOrder) : List UInt8 → List Char
  | [] => []
  | [_] => ['\ufffd']
  | a :: b :: rest =>
    let u := order.unit a b
    if isHigh u then
      match rest with
      | c :: d :: rest' =>
        let v := order.unit c d
        if isLow v then joined u v :: chars order rest'
        else '\ufffd' :: chars order (c :: d :: rest')
      | _ => ['\ufffd']
    else if isLow u then '\ufffd' :: chars order rest
    else Char.ofNat u :: chars order rest

def decode (order : ByteOrder) (bytes : List UInt8) : String :=
  String.ofList (chars order bytes)

end GrowthOrder.Utf16
