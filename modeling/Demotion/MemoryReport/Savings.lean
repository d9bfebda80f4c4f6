import Demotion.MemoryReport.Basic
import Demotion.Number.Decimal
import Demotion.Number.Integer

/-!
# Memory savings

The byte figures of a report are the integers at the head of two of its values. The figures are
exact; the percentage is the quotient in double precision, rounded to one decimal place.
-/

namespace Demotion.MemoryReport

/-- The byte figures of a report. -/
structure Savings where
  before : Int
  after : Int
  saved : Int
  percent : Binary64
  deriving DecidableEq, Repr

/-- Why there are no byte figures. -/
inductive SavingsError where
  | number (error : NumberError)
  | overflow
  deriving DecidableEq, Repr

/-- The integer at the head of a value, after white space; 0 if there is none. -/
def leadingInt (value : Option String) : Except NumberError Int :=
  let s := ((value.getD "").toList).dropWhile Text.isBlank
  let (negative, rest) := Integer.splitSign s
  let digits := rest.takeWhile Text.isDigit
  if digits.isEmpty then .ok 0
  else if Integer.maxDigits < digits.length then .error (.longText digits.length)
  else .ok (Integer.ofSign negative (Integer.ofDigits digits))

/-- What part of `before` is saved, in percent. With no bytes before, nothing is. -/
def percentSaved? (before saved : Int) : Option Binary64 :=
  if 0 < before then
    (Binary64.divide? saved before.toNat).map fun x => x.percent.roundTenth
  else some (.finite false 0 0)

/-- The byte figures of a report. -/
def savings (r : MemoryReport) : Except SavingsError Savings :=
  match leadingInt (Assoc.find? "original_memory_usage" (r.table .memory)) with
  | .error e => .error (.number e)
  | .ok before =>
    match leadingInt (Assoc.find? "after_demotion" (r.table .memory)) with
    | .error e => .error (.number e)
    | .ok after =>
      match percentSaved? before (before - after) with
      | none => .error .overflow
      | some percent => .ok { before, after, saved := before - after, percent }

/-- The error in words. -/
def SavingsError.message : SavingsError → String
  | .number e => e.message
  | .overflow => "integer division result too large for a float"

end Demotion.MemoryReport
