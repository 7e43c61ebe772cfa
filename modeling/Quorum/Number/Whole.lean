import Quorum.Net.Ip

/-!
# Whole numbers between bounds

Decimal digits behind an optional sign. A number is read digit by digit, so that the
first thing wrong with it decides what is said.
-/

namespace Quorum.Whole

inductive Fault where
  | empty
  | badDigit
  | tooLarge
  | tooSmall
  deriving DecidableEq, Repr

def Fault.message : Fault → String
  | empty => "cannot parse integer from empty string"
  | badDigit => "invalid digit found in string"
  | tooLarge => "number too large to fit in target type"
  | tooSmall => "number too small to fit in target type"

/-- Appends digits to a number whose magnitude must not exceed `limit`. -/
def readDigits (limit : Nat) (excess : Fault) : Nat → List Char → Except Fault Nat
  | n, [] => .ok n
  | n, c :: rest =>
    if !IpAddress.isDecimal c then .error .badDigit
    else
      let n' := 10 * n + (c.toNat - 48)
      if limit < n' then .error excess else readDigits limit excess n' rest

/-- Reads a number from `-below` to `above`; a minus sign is one only where there are numbers below
zero. -/
def read (below above : Nat) (s : List Char) : Except Fault Int :=
  match s with
  | [] => .error .empty
  | ['+'] | ['-'] => .error .badDigit
  | '+' :: rest => (readDigits above .tooLarge 0 rest).map Int.ofNat
  | '-' :: rest =>
    if below = 0 then .error .badDigit
    else (readDigits below .tooSmall 0 rest).map fun n => -Int.ofNat n
  | s => (readDigits above .tooLarge 0 s).map Int.ofNat

end Quorum.Whole
