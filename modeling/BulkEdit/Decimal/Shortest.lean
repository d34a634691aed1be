import BulkEdit.Decimal.Binary64

/-!
# The shortest decimal form

A binary number is written with the fewest decimal digits that round back to it; of two such forms the
nearer one is taken. It is written without an exponent, and with at least one digit after the point.
-/

namespace BulkEdit.Binary64

/-- The ratios that round to a significand and exponent lie between these two, which belong to them
when the significand is even. -/
def bounds (significand : Nat) (exponent : Int) : Ratio × Ratio :=
  let unit (n : Nat) : Ratio := Ratio.scale ⟨n, 4⟩ 2 exponent
  let narrow := significand = Nat.pow 2 52 ∧ leastExponent < exponent
  (unit (if narrow then 4 * significand - 1 else 4 * significand - 2), unit (4 * significand + 2))

def inBounds (significand : Nat) (exponent : Int) (r : Ratio) : Bool :=
  let (low, high) := bounds significand exponent
  if significand % 2 = 0 then low.le r && r.le high else low.lt r && r.lt high

/-- The number of decimal digits before the point of a ratio, negative where zeros follow it. -/
def pointOf (r : Ratio) : Int :=
  let guess : Int := ((Nat.toDigits 10 r.num).length : Int) - (Nat.toDigits 10 r.den).length
  if (Ratio.scale ⟨1, 1⟩ 10 guess).le r then guess + 1 else guess

/-- The multiple of a decimal unit that is nearest to `value` among its two neighbours that round back
to it. -/
def candidate? (significand : Nat) (exponent : Int) (value : Ratio) (place : Int) : Option Nat :=
  let scaled := value.scale 10 (-place)
  let low := scaled.floor
  let back (n : Nat) : Bool :=
    decide (0 < n) && inBounds significand exponent (Ratio.scale ⟨n, 1⟩ 10 place)
  match back low, back (low + 1) with
  | true, true => some scaled.round
  | true, false => some low
  | false, true => some (low + 1)
  | false, false => none

/-- A digit that is followed by a zero is a single digit one place up. -/
def settled (digits : Nat) (place : Int) : Nat × Int :=
  if digits % 10 = 0 then (digits / 10, place + 1) else (digits, place)

/-- The first candidate with `count` digits or more, up to seventeen, with its decimal place. -/
def search (significand : Nat) (exponent : Int) (value : Ratio) (point : Int) :
    Nat → Nat → Nat × Int
  | 0, _ => (0, 0)
  | left + 1, count =>
    let place := point - count
    match candidate? significand exponent value place with
    | some digits => settled digits place
    | none => search significand exponent value point left (count + 1)

/-- Decimal digits and the place of the last one, for a significand that is not zero. -/
def shortest (significand : Nat) (exponent : Int) : Nat × Int :=
  let value := Ratio.scale ⟨significand, 1⟩ 2 exponent
  search significand exponent value (pointOf value) 17 1

/-- A natural number times a power of ten, without an exponent and with a fraction. -/
def positional (digits : Nat) (place : Int) : Text :=
  let shown := Nat.toDigits 10 digits
  match place with
  | .ofNat n => shown ++ List.replicate n '0' ++ ['.', '0']
  | .negSucc n =>
    let places := n + 1
    let padded := List.replicate (places + 1 - shown.length) '0' ++ shown
    padded.take (padded.length - places) ++ '.' :: padded.drop (padded.length - places)

def toText : Binary64 → Text
  | .nan => ['N', 'a', 'N']
  | .infinite negative => (if negative then ['-'] else []) ++ ['i', 'n', 'f']
  | .finite negative significand exponent =>
    let (digits, place) := if significand = 0 then (0, 0) else shortest significand exponent
    (if negative then ['-'] else []) ++ positional digits place

end BulkEdit.Binary64
