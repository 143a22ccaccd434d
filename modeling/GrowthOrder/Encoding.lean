import GrowthOrder.Text.CharClass
import GrowthOrder.Encoding.Utf8
import GrowthOrder.Encoding.Utf16
import GrowthOrder.Encoding.Windows1252
/-!
From bytes to source text. A file says by its first bytes that it is UTF-16; otherwise it is UTF-8,
and if it is not that either, one byte per character. Typed lines are UTF-8 only and end at a line
that says so.
-/
namespace GrowthOrder.Encoding

/-- The text without one byte order mark at its beginning. -/
def withoutMark (text : String) : String :=
  match text.toList with
  | '\ufeff' :: rest => String.ofList rest
  | _ => text

/-- The text of bytes that are not UTF-8 throughout: those that begin with the mark of UTF-8 are
read as such all the same. -/
def decodeFaulty : List UInt8 → String
  | 0xef :: 0xbb :: 0xbf :: rest => Utf8.decodeLossy rest
  | bytes => Windows1252.decode bytes

/-- The text of a file, its mark still in front if it is UTF-8. -/
def decodeMarked : List UInt8 → String
  | 0xff :: 0xfe :: rest => Utf16.decode .little rest
  | 0xfe :: 0xff :: rest => Utf16.decode .big rest
  | bytes => (Utf8.decode? bytes).getD (decodeFaulty bytes)

/-- The text of a file. -/
def decode (bytes : List UInt8) : String :=
  withoutMark (decodeMarked bytes)

/-- The line that ends typed input. -/
def endMarker : List Char := ['E', 'N', 'D']

/-- A line without the blanks around it. -/
def trimmed (line : List Char) : List Char :=
  ((line.dropWhile Text.isBlank).reverse.dropWhile Text.isBlank).reverse

/-- The bytes of each line, without its end: a line feed, or a carriage return and a line feed. What
follows the last line feed is a line if there is any of it. -/
def lines (bytes : List UInt8) : List (List UInt8) :=
  let ended (line : List UInt8) : List UInt8 :=
    if line.getLast? = some 13 then line.dropLast else line
  let parts := bytes.splitOn 10
  parts.dropLast.map ended ++ (parts.getLast?.toList.filter fun line => !line.isEmpty)

/-- The text that lines make up to the one that ends the input, each with a line feed. It fails at a
line that is not UTF-8, unless the input has ended before. -/
def typed? : List (List UInt8) → Option String
  | [] => some ""
  | line :: rest =>
    match Utf8.decode? line with
    | none => none
    | some text =>
      if trimmed text.toList = endMarker then some ""
      else (typed? rest).map fun more => text ++ "\n" ++ more

/-- The text of typed input. -/
def decodeTyped? (bytes : List UInt8) : Option String :=
  typed? (lines bytes)

end GrowthOrder.Encoding
