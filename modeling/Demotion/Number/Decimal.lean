import Demotion.Number.Binary64

/-!
# Decimal text of a double-precision number

A number is written from decimal digits d₁ d₂ … and an exponent e, which stand for
d₁.d₂… · 10^e. `shortest` gives the fewest digits that read back as the number, and of those the
nearest; `significant` rounds the exact value to a given number of digits. A `Layout` says which
exponents are written out and whether a whole number is marked by `.0`.
-/

namespace Demotion.Binary64

/-- Decimal digits and the exponent of the first. -/
structure Decimal where
  digits : List Char
  exponent : Int
  deriving DecidableEq, Repr

/-- The number of decimal digits of a natural number. -/
def digitCount (n : Nat) : Nat :=
  (Nat.toDigits 10 n).length

/-- The exponent e with 10^e ≤ num / den < 10^(e + 1), for positive `num` and `den`. -/
def leadingExponent (num den : Nat) : Int :=
  if den ≤ num then (digitCount (num / den) : Int) - 1
  else -(digitCount ((den - 1) / num) : Int)

/-- The fraction num / den times 10^shift, as a fraction. -/
def shifted (num den : Nat) (shift : Int) : Nat × Nat :=
  if 0 ≤ shift then (num * Nat.pow 10 shift.toNat, den) else (num, den * Nat.pow 10 (-shift).toNat)

/-- The digits of `n`, of which the last counts 10^least, without zeros at the end. -/
def Decimal.ofNat (n : Nat) (least : Int) : Decimal :=
  let all := Nat.toDigits 10 n
  let kept := (all.reverse.dropWhile (· = '0')).reverse
  { digits := if kept.isEmpty then ['0'] else kept, exponent := least + (all.length - 1 : Nat) }

/-- The value of num / den rounded to `count` digits, a half to the even neighbour. -/
def significant (count num den : Nat) : Decimal :=
  if num = 0 then { digits := ['0'], exponent := 0 }
  else
    let least := leadingExponent num den - (count - 1 : Nat)
    let (a, b) := shifted num den (-least)
    Decimal.ofNat (roundDiv a b) least

/-- The point of the grid of `count` digits that reads back as ± m · 2^p units and is nearest to it,
if there is one. The two neighbours of the value are the only candidates. -/
def readingBack? (m p count : Nat) : Option Decimal :=
  let num := m * Nat.pow 2 p
  let least := leadingExponent num unitsPerOne - (count - 1 : Nat)
  let (a, b) := shifted num unitsPerOne (-least)
  let below := a / b
  let nearest := roundDiv a b
  let other := if nearest = below then below + 1 else below
  let readsBack (n : Nat) : Bool := ofDecimal false n least == .finite false m p
  if readsBack nearest then some (Decimal.ofNat nearest least)
  else if readsBack other then some (Decimal.ofNat other least)
  else none

/-- The fewest digits that read back as ± m · 2^p units. Seventeen always do. -/
def shortest (m p : Nat) : Decimal :=
  if m = 0 then { digits := ['0'], exponent := 0 }
  else
    match (List.range 17).findSome? fun k => readingBack? m p (k + 1) with
    | some d => d
    | none => significant 17 (m * Nat.pow 2 p) unitsPerOne

/-- How decimal digits become a text. -/
structure Layout where
  /-- The least exponent that is written out. -/
  lowest : Int
  /-- The least exponent that is no longer written out. -/
  highest : Int
  /-- Whether a whole number that is written out ends in `.0`. -/
  marksWhole : Bool

/-- The exponent with its sign and at least two digits. -/
def exponentText (e : Int) : List Char :=
  let digits := Nat.toDigits 10 e.natAbs
  let padded := if digits.length < 2 then '0' :: digits else digits
  (if e < 0 then '-' else '+') :: padded

/-- The text of decimal digits. -/
def Layout.text (l : Layout) (d : Decimal) : List Char :=
  if l.lowest ≤ d.exponent && d.exponent < l.highest then
    if d.exponent < 0 then
      '0' :: '.' :: List.replicate ((-d.exponent).toNat - 1) '0' ++ d.digits
    else
      let whole := d.exponent.toNat + 1
      let front := d.digits.take whole ++ List.replicate (whole - d.digits.length) '0'
      match d.digits.drop whole with
      | [] => if l.marksWhole then front ++ ['.', '0'] else front
      | fraction => front ++ '.' :: fraction
  else
    match d.digits with
    | [] => []
    | [c] => c :: 'e' :: exponentText d.exponent
    | c :: rest => c :: '.' :: rest ++ 'e' :: exponentText d.exponent

/-- A number read back exactly: written out from 10^-4 to below 10^16, a whole number with `.0`. -/
def exactLayout : Layout := ⟨-4, 16, true⟩

/-- A number at a glance: written out from 10^-4 to below 10^6, a whole number as such. -/
def briefLayout : Layout := ⟨-4, 6, false⟩

/-- Puts the sign in front. -/
def signed (negative : Bool) (s : List Char) : String :=
  String.ofList (if negative then '-' :: s else s)

/-- Writes a number whose finite values are written by `body`. -/
def textWith (body : Nat → Nat → List Char) : Binary64 → String
  | .finite s m p => signed s (body m p)
  | .infinite s => signed s ['i', 'n', 'f']
  | .nan => "nan"

/-- The number by the fewest digits that read back. -/
def exact (x : Binary64) : String :=
  textWith (fun m p => exactLayout.text (shortest m p)) x

/-- The number to six digits. -/
def brief (x : Binary64) : String :=
  textWith (fun m p => briefLayout.text (significant 6 (m * Nat.pow 2 p) unitsPerOne)) x

/-- The number to a fixed number of decimal places, a half to the even neighbour. -/
def fixed (places : Nat) (x : Binary64) : String :=
  textWith (fun m p =>
    let digits := Nat.toDigits 10 (roundDiv (m * Nat.pow 2 p * Nat.pow 10 places) unitsPerOne)
    let padded := List.replicate (places + 1 - digits.length) '0' ++ digits
    let whole := padded.length - places
    if places = 0 then padded else padded.take whole ++ '.' :: padded.drop whole) x

end Demotion.Binary64
