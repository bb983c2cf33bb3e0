import Mathlib.Data.Int.Order.Basic

set_option autoImplicit false

/-! # Strings of bytes

`std::string` as a list of bytes, with the conversions of the standard library.
-/

namespace EdgeGateway

/-- The bytes of a literal. -/
def bytes (s : String) : List UInt8 := s.toList.flatMap String.utf8EncodeChar

def ofDecimal (digits : List UInt8) : Nat :=
  digits.foldl (fun n d => 10 * n + (d.toNat - 48)) 0

def decimal (n : Nat) : List UInt8 := (Nat.toDigits 10 n).map fun c => UInt8.ofNat c.toNat

/-- `std::isdigit` in the `C` locale. -/
def isDigit (c : UInt8) : Bool := 48 ≤ c.toNat ∧ c.toNat ≤ 57

/-- `std::isspace` in the `C` locale. -/
def isSpace (c : UInt8) : Bool := c.toNat = 32 ∨ 9 ≤ c.toNat ∧ c.toNat ≤ 13

/-- `std::to_string`. -/
def toDecimal (i : Int) : List UInt8 :=
  if i < 0 then bytes "-" ++ decimal i.natAbs else decimal i.natAbs

/-- `std::stoi`: white space, a sign, and as many digits as follow; `none` where it throws. -/
def stoi (s : List UInt8) : Option Int :=
  let s := s.dropWhile isSpace
  let sign : Bool := s.head? = some 45
  let s := if sign ∨ s.head? = some 43 then s.tail else s
  let digits := s.takeWhile isDigit
  let value : Int := if sign then -ofDecimal digits else ofDecimal digits
  if digits = [] ∨ value < -2147483648 ∨ value > 2147483647 then none else some value

example : (stoi (bytes " +12x"), stoi (bytes "-7"), stoi (bytes "- 7")) =
    (some 12, some (-7), none) := by decide

end EdgeGateway
