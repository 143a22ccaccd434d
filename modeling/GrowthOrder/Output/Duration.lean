/-!
The text of a duration.
-/
namespace GrowthOrder.Duration

/-- The three digits of a number below a thousand. -/
def thousandths (n : Nat) : String :=
  let digits := toString n
  String.ofList (List.replicate (3 - digits.length) '0') ++ digits

/-- A duration given in thousandths of a second: in thousandths below a second, in seconds below a
minute, else in minutes and full seconds. -/
def text (millis : Nat) : String :=
  let seconds := millis / 1000
  if seconds = 0 then toString millis ++ "ms"
  else if seconds < 60 then toString seconds ++ "." ++ thousandths (millis % 1000) ++ "s"
  else toString (seconds / 60) ++ "m " ++ toString (seconds % 60) ++ "s"

end GrowthOrder.Duration
