/-!
# Decimal and hexadecimal digits

Numbers are written with the fewest digits. A reader takes ASCII digits only and says what becomes
of leading zeros, a sign and a value that is too large.
-/

namespace BuildProgress.Text

set_option autoImplicit false

def maxUnsigned : Nat := Nat.pow 2 64 - 1

def isSigned64 (n : Int) : Bool :=
  -(Nat.pow 2 63 : Int) ≤ n && n < (Nat.pow 2 63 : Int)

def isDigit (c : Char) : Bool :=
  '0' ≤ c && c ≤ '9'

def digitsValue (digits : List Char) : Nat :=
  Nat.ofDigitChars 10 digits 0

def decimal (n : Nat) : List Char :=
  Nat.toDigits 10 n

def hexadecimal (n : Nat) : List Char :=
  Nat.toDigits 16 n

def signedDecimal (n : Int) : List Char :=
  if n < 0 then '-' :: decimal n.natAbs else decimal n.natAbs

def hexDigit? (c : Char) : Option Nat :=
  if '0' ≤ c ∧ c ≤ '9' then some (c.toNat - '0'.toNat)
  else if 'a' ≤ c ∧ c ≤ 'f' then some (c.toNat - 'a'.toNat + 10)
  else if 'A' ≤ c ∧ c ≤ 'F' then some (c.toNat - 'A'.toNat + 10)
  else none

/-- A run of digits, of any length, whose value fits 64 bits. -/
def readDigits? (digits : List Char) : Option Nat :=
  if !digits.isEmpty && digits.all isDigit && digitsValue digits ≤ maxUnsigned then
    some (digitsValue digits)
  else none

/-- A number that fits 64 bits, with or without a plus sign. -/
def readCount? : List Char → Option Nat
  | '+' :: digits => readDigits? digits
  | digits => readDigits? digits

def byteHex (byte : UInt8) : List Char :=
  [Nat.digitChar (byte.toNat / 16), Nat.digitChar (byte.toNat % 16)]

def bytesHex (bytes : List UInt8) : List Char :=
  bytes.flatMap byteHex

end BuildProgress.Text
