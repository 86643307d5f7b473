/-!
# UTF-8

Bytes are read one at a time by a small state machine. What it gives is a list of pieces: each
character, and one `none` for each maximal run of bytes that begins a character and cannot end it.
Strict reading refuses any such run; lossy reading puts U+FFFD in its place.
-/

namespace BuildProgress.Utf8

set_option autoImplicit false

def encode (text : List Char) : List UInt8 :=
  text.flatMap String.utf8EncodeChar

/-- A character that is not complete yet: the value gathered so far and the ranges in which its
following bytes must lie. -/
structure Pending where
  value : Nat
  next : Nat × Nat
  later : List (Nat × Nat)
deriving DecidableEq, Repr

def follower : Nat × Nat := (0x80, 0xBF)

/-- The value bits of a first byte and the ranges of the bytes that must follow it. The narrower
ranges keep out over-long forms, surrogates and values above U+10FFFF. -/
def lead? (byte : Nat) : Option (Nat × List (Nat × Nat)) :=
  if byte ≤ 0x7F then some (byte, [])
  else if byte < 0xC2 then none
  else if byte ≤ 0xDF then some (byte - 0xC0, [follower])
  else if byte = 0xE0 then some (byte - 0xE0, [(0xA0, 0xBF), follower])
  else if byte = 0xED then some (byte - 0xE0, [(0x80, 0x9F), follower])
  else if byte ≤ 0xEF then some (byte - 0xE0, [follower, follower])
  else if byte = 0xF0 then some (byte - 0xF0, [(0x90, 0xBF), follower, follower])
  else if byte ≤ 0xF3 then some (byte - 0xF0, [follower, follower, follower])
  else if byte = 0xF4 then some (byte - 0xF0, [(0x80, 0x8F), follower, follower])
  else none

/-- Goes on with a value whose following bytes must lie in `ranges`. -/
def advance (value : Nat) : List (Nat × Nat) → List (Option Char) × Option Pending
  | [] => ([some (Char.ofNat value)], none)
  | next :: later => ([], some ⟨value, next, later⟩)

def start (byte : Nat) : List (Option Char) × Option Pending :=
  match lead? byte with
  | none => ([none], none)
  | some (value, ranges) => advance value ranges

/-- Reads one byte. A byte that does not fit ends the pending run and begins anew. -/
def step (pending : Option Pending) (byte : Nat) : List (Option Char) × Option Pending :=
  match pending with
  | none => start byte
  | some p =>
    if p.next.1 ≤ byte ∧ byte ≤ p.next.2 then advance (p.value * 64 + (byte - 0x80)) p.later
    else
      let (pieces, after) := start byte
      (none :: pieces, after)

def piecesFrom (pending : Option Pending) : List UInt8 → List (Option Char)
  | [] => match pending with
    | none => []
    | some _ => [none]
  | byte :: rest =>
    let (pieces, after) := step pending byte.toNat
    pieces ++ piecesFrom after rest

/-- The characters of a byte string, with `none` for each maximal run that is no character. -/
def pieces (bytes : List UInt8) : List (Option Char) :=
  piecesFrom none bytes

def decode? (bytes : List UInt8) : Option (List Char) :=
  (pieces bytes).mapM id

/-- The text of the bytes with U+FFFD in place of what spells no character. -/
def decodeLossy (bytes : List UInt8) : List Char :=
  (pieces bytes).map (·.getD '\uFFFD')

end BuildProgress.Utf8
