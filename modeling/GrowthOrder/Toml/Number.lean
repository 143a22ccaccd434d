import GrowthOrder.Text.Hex
/-!
The texts of numbers and dates in TOML. Only their form is checked, and that a number can be held
in 64 bits; their values are of no use to settings.
-/
namespace GrowthOrder.Toml

/-- Digits, with at most one underscore between two of them. -/
def isRun (isDigit : Char → Bool) : List Char → Bool
  | [] => false
  | [c] => isDigit c
  | c :: '_' :: rest => isDigit c && isRun isDigit rest
  | c :: rest => isDigit c && isRun isDigit rest

/-- The value of digits to a base; underscores do not count. -/
def runValue (base : Nat) (digits : List Char) : Nat :=
  Text.numberOf base (digits.filter (· ≠ '_'))

/-- A text and whether a minus stood before it; a plus may stand there too. -/
def unsigned : List Char → Bool × List Char
  | '-' :: rest => (true, rest)
  | '+' :: rest => (false, rest)
  | cs => (false, cs)

/-- Decimal digits that do not begin with a zero, or a zero alone. -/
def isWhole (cs : List Char) : Bool :=
  isRun Char.isDigit cs && (cs.head? ≠ some '0' || cs.length == 1)

/-- The first number above those that fit into 64 bits with a sign. -/
def wordLimit : Nat := 0x8000000000000000

def isInteger (cs : List Char) : Bool :=
  match cs with
  | '0' :: 'x' :: rest => isRun Text.isHexDigit rest && runValue 16 rest < wordLimit
  | '0' :: 'o' :: rest => isRun (fun c => '0' ≤ c && c ≤ '7') rest && runValue 8 rest < wordLimit
  | '0' :: 'b' :: rest => isRun (fun c => c == '0' || c == '1') rest && runValue 2 rest < wordLimit
  | cs =>
    let (negative, digits) := unsigned cs
    isWhole digits && runValue 10 digits < wordLimit + negative.toNat

/-- The first number that a double rounds to infinity. -/
def doubleLimit : Nat := Nat.pow 2 1024 - Nat.pow 2 970

/-- Whether digits with a decimal point before the last `places` of them, times ten to the power of
`exponent`, are too large for a double, which then rounds them to infinity. -/
def exceedsDouble (digits : List Char) (places : Nat) (exponent : Int) : Bool :=
  let value := runValue 10 digits
  let scale := exponent - places
  let size := (Nat.toDigits 10 value).length + scale
  if value = 0 ∨ size ≤ 308 then false
  else if 310 ≤ size then true
  else
    if 0 ≤ scale then doubleLimit ≤ value * Nat.pow 10 scale.toNat
    else doubleLimit * Nat.pow 10 (-scale).toNat ≤ value

/-- A number with a fraction or an exponent, or one of the special ones. -/
def isFloat (cs : List Char) : Bool :=
  let (negative, body) := unsigned cs
  if body = ['i', 'n', 'f'] ∨ body = ['n', 'a', 'n'] then true
  else
    let mantissa := body.takeWhile fun c => c ≠ 'e' ∧ c ≠ 'E'
    let power := body.drop mantissa.length
    let whole := mantissa.takeWhile (· ≠ '.')
    let fraction := mantissa.drop whole.length
    let (negativePower, powerDigits) := unsigned power.tail
    let exponent := runValue 10 powerDigits
    isWhole whole &&
      (fraction.isEmpty || isRun Char.isDigit fraction.tail) &&
      (power.isEmpty || isRun Char.isDigit powerDigits) &&
      !(fraction.isEmpty && power.isEmpty) &&
      (negative || !exceedsDouble (whole ++ fraction.tail)
        (fraction.tail.filter (· ≠ '_')).length
        (if negativePower then -exponent else exponent))

/-- The value of two digits, if they are such. -/
def twoDigits? (a b : Char) : Option Nat :=
  if a.isDigit && b.isDigit then some (runValue 10 [a, b]) else none

/-- Whether two digits are a number between two others. -/
def isBetween (low high : Nat) (a b : Char) : Bool :=
  match twoDigits? a b with
  | some n => low ≤ n && n ≤ high
  | none => false

def isLeap (year : Nat) : Bool :=
  year % 4 == 0 && (year % 100 != 0 || year % 400 == 0)

def daysIn (year month : Nat) : Nat :=
  if month = 2 then (if isLeap year then 29 else 28)
  else if month = 4 ∨ month = 6 ∨ month = 9 ∨ month = 11 then 30
  else 31

def isDate : List Char → Bool
  | [y1, y2, y3, y4, '-', m1, m2, '-', d1, d2] =>
    [y1, y2, y3, y4].all Char.isDigit && isBetween 1 12 m1 m2 &&
      isBetween 1 (daysIn (runValue 10 [y1, y2, y3, y4]) (runValue 10 [m1, m2])) d1 d2
  | _ => false

/-- A time of day; a fraction of the second may follow. -/
def isTime : List Char → Bool
  | h1 :: h2 :: ':' :: m1 :: m2 :: ':' :: s1 :: s2 :: rest =>
    isBetween 0 23 h1 h2 && isBetween 0 59 m1 m2 && isBetween 0 60 s1 s2 &&
      (match rest with
        | [] => true
        | '.' :: digits => !digits.isEmpty && digits.all Char.isDigit
        | _ => false)
  | _ => false

/-- The distance of a time from that of the prime meridian. -/
def isOffset : List Char → Bool
  | ['Z'] | ['z'] => true
  | [sign, h1, h2, ':', m1, m2] =>
    (sign == '+' || sign == '-') && isBetween 0 23 h1 h2 && isBetween 0 59 m1 m2
  | _ => false

/-- A time of day, with or without its offset. -/
def isZonedTime (cs : List Char) : Bool :=
  let time := cs.takeWhile fun c => c.isDigit || c == ':' || c == '.'
  isTime time && (time.length == cs.length || isOffset (cs.drop time.length))

/-- A date, a time of day, or both. -/
def isMoment (cs : List Char) : Bool :=
  let date := cs.take 10
  match cs.drop 10 with
  | [] => isDate date || isTime cs
  | c :: time =>
    (isDate date && (c == 'T' || c == 't' || c == ' ') && isZonedTime time) || isTime cs

def isNumber (cs : List Char) : Bool :=
  isInteger cs || isFloat cs || isMoment cs

end GrowthOrder.Toml
