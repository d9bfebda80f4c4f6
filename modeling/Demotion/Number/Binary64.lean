/-!
# Double precision

A `Binary64` is a double-precision number in exact form: a finite one is a significand times a
power of two, counted in units of 2^-1074, the least positive value. `ofRatio` rounds any
non-negative fraction to the nearest such number, a tie to the even significand; all other
operations are an exact fraction followed by `ofRatio`.
-/

namespace Demotion

/-- A double-precision number. `finite s m p` is ± m · 2^p / 2^1074. -/
inductive Binary64 where
  | finite (negative : Bool) (significand exponent : Nat)
  | infinite (negative : Bool)
  | nan
  deriving DecidableEq, Repr

/-- The quotient `num / den` rounded to an integer, a half to the even neighbour. -/
def roundDiv (num den : Nat) : Nat :=
  let quotient := num / den
  let twice := 2 * (num % den)
  if twice < den then quotient
  else if den < twice then quotient + 1
  else if quotient % 2 = 0 then quotient else quotient + 1

namespace Binary64

/-- The number of units in 1. -/
def unitsPerOne : Nat := Nat.pow 2 1074

/-- The largest exponent of a finite number. -/
def maxExponent : Nat := 2045

/-- The number with a significand of at most 2^53, which is infinite beyond the largest exponent. -/
def ofParts (negative : Bool) (significand exponent : Nat) : Binary64 :=
  let (m, p) :=
    if significand = 0x20000000000000 then (0x10000000000000, exponent + 1)
    else (significand, exponent)
  if maxExponent < p then .infinite negative else .finite negative m p

/-- The number nearest to ± num / den, a tie to the even significand. -/
def ofRatio (negative : Bool) (num den : Nat) : Binary64 :=
  let units := num * unitsPerOne
  let p := (units / den).log2 - 52
  ofParts negative (roundDiv units (den * Nat.pow 2 p)) p

/-- The size of a finite number in units. -/
def units : Binary64 → Nat
  | .finite _ m p => m * Nat.pow 2 p
  | _ => 0

/-- The number nearest to an integer. -/
def ofInt (n : Int) : Binary64 :=
  ofRatio (n < 0) n.natAbs 1

/-- The number nearest to ± digits · 10^exponent. Sizes far outside the range are not computed: a
power of ten is at least as large as that power of eight. -/
def ofDecimal (negative : Bool) (digits : Nat) (exponent : Int) : Binary64 :=
  let size := digits.log2 + 3 * exponent
  if digits = 0 then .finite negative 0 0
  else if 0 ≤ exponent then
    if 1024 ≤ size then .infinite negative
    else ofRatio negative (digits * Nat.pow 10 exponent.toNat) 1
  else if size < -1076 then .finite negative 0 0
  else ofRatio negative digits (Nat.pow 10 (-exponent).toNat)

/-- A number, if it is finite. -/
def finite? : Binary64 → Option Binary64
  | .finite s m p => some (.finite s m p)
  | _ => none

/-- The quotient of two integers, nearest to the exact one, if it is finite. The divisor is
positive. -/
def divide? (a : Int) (b : Nat) : Option Binary64 :=
  (ofRatio (a < 0) a.natAbs b).finite?

/-- The number nearest to 100 times a number. -/
def percent : Binary64 → Binary64
  | .finite s m p => ofRatio s (100 * (m * Nat.pow 2 p)) unitsPerOne
  | x => x

/-- The number nearest to the exact value rounded to one decimal place, a half to the even
neighbour. -/
def roundTenth : Binary64 → Binary64
  | .finite s m p => ofRatio s (roundDiv (10 * (m * Nat.pow 2 p)) unitsPerOne) 10
  | x => x

/-- The number of seconds that a clock with steps of a millionth shows for a time: the parts of a
second in millionths, rounded once to double precision and once to an integer, a half to the even
neighbour. -/
def clocked : Binary64 → Binary64
  | .finite s m p =>
    let units := m * Nat.pow 2 p
    let millionths := (ofRatio false (units % unitsPerOne * 1000000) unitsPerOne).units
    let steps := units / unitsPerOne * 1000000 + roundDiv millionths unitsPerOne
    ofRatio (s && steps ≠ 0) steps (1000000)
  | x => x

/-- The largest integer that is not above a finite number, 0 for the others. -/
def floor : Binary64 → Int
  | .finite s m p => (if s then -(m * Nat.pow 2 p : Nat) else (m * Nat.pow 2 p : Nat) : Int).fdiv unitsPerOne
  | _ => 0

/-- Whether a number is zero or less. Not-a-number is not. -/
def isNonPositive : Binary64 → Bool
  | .finite s m _ => s || m == 0
  | .infinite s => s
  | .nan => false

end Binary64

end Demotion
