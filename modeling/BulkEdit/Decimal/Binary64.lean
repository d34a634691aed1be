import BulkEdit.Text.Basic

/-!
# Binary numbers of 64 bits

A finite number is a significand below two to the 53 times a power of two. Decimal numbers are rounded
to the nearest one, a half to the even significand, in exact arithmetic.
-/

namespace BulkEdit

inductive Binary64 where
  | finite (negative : Bool) (significand : Nat) (exponent : Int)
  | infinite (negative : Bool)
  | nan
  deriving DecidableEq, Repr

/-- A quotient of natural numbers, the second not zero. -/
structure Ratio where
  num : Nat
  den : Nat
  deriving Repr

namespace Ratio

/-- The ratio times a power of a base. -/
def scale (r : Ratio) (base : Nat) (exponent : Int) : Ratio :=
  match exponent with
  | .ofNat n => ⟨r.num * Nat.pow base n, r.den⟩
  | .negSucc n => ⟨r.num, r.den * Nat.pow base (n + 1)⟩

def floor (r : Ratio) : Nat := r.num / r.den

/-- The nearest natural number. A half goes to the even one. -/
def round (r : Ratio) : Nat :=
  let low := r.num / r.den
  let twice := 2 * (r.num % r.den)
  if twice < r.den then low
  else if r.den < twice then low + 1
  else if low % 2 = 0 then low
  else low + 1

def lt (r s : Ratio) : Bool := Nat.blt (r.num * s.den) (s.num * r.den)

def le (r s : Ratio) : Bool := Nat.ble (r.num * s.den) (s.num * r.den)

end Ratio

namespace Binary64

/-- The smallest exponent of two, and the largest that a significand of 53 digits may have. -/
def leastExponent : Int := -1074

def greatestExponent : Int := 971

/-- The number nearest to a positive ratio. -/
def ofRatio (negative : Bool) (r : Ratio) : Binary64 :=
  let guess : Int := (Nat.log2 r.num : Int) - (Nat.log2 r.den : Int) - 53
  let exponent := if guess < leastExponent then leastExponent else guess
  let wide := (r.scale 2 (-exponent)).floor
  let extra : Int := if wide < Nat.pow 2 53 then 0 else if wide < Nat.pow 2 54 then 1 else 2
  let exponent := exponent + extra
  let significand := (r.scale 2 (-exponent)).round
  let (significand, exponent) :=
    if significand = Nat.pow 2 53 then (Nat.pow 2 52, exponent + 1) else (significand, exponent)
  if greatestExponent < exponent then .infinite negative
  else .finite negative significand exponent

/-- The number nearest to `digits` times ten to the `exponent`. -/
def ofDecimal (negative : Bool) (digits : Nat) (exponent : Int) : Binary64 :=
  if digits = 0 then .finite negative 0 0
  else
    let magnitude : Int := ((Nat.toDigits 10 digits).length : Int) + exponent
    if 400 < magnitude then .infinite negative
    else if magnitude < -400 then .finite negative 0 0
    else ofRatio negative (Ratio.scale ⟨digits, 1⟩ 10 exponent)

end Binary64

end BulkEdit
