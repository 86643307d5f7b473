import BuildProgress.Text.Decimal

/-!
# Socket addresses

An address of version 4 or 6 with the number of a service there, as text. An address of version 6
is written with the longest run of zero groups left out, and with the last two groups as an address
of version 4 where it stands for one.
-/

namespace BuildProgress

set_option autoImplicit false

open BuildProgress.Text

/-- A socket address. The parts of an address of version 4 are bytes, the groups of an address of
version 6 are sixteen bits wide. -/
inductive SocketAddress where
  | v4 (a b c d : Nat) (service : Nat)
  | v6 (groups : List Nat) (scope : Nat) (service : Nat)
deriving DecidableEq, Repr

namespace SocketAddress

/-- A reader takes something off the front of a text. -/
abbrev Reader (α : Type) := List Char → Option (α × List Char)

def digitIn? (base : Nat) (c : Char) : Option Nat :=
  (hexDigit? c).filter (· < base)

def valueIn (base : Nat) (digits : List Char) : Nat :=
  digits.foldl (fun n c => n * base + (digitIn? base c).getD 0) 0

/-- Reads all digits that follow: at least one, and a value of at most `limit`. -/
def readNumber (base limit : Nat) (allowed : List Char → Bool) : Reader Nat := fun text =>
  let digits := text.takeWhile fun c => (digitIn? base c).isSome
  let value := valueIn base digits
  if digits.isEmpty || !allowed digits || limit < value then none
  else some (value, text.drop digits.length)

def readChar (c : Char) : Reader Unit
  | d :: rest => if d = c then some ((), rest) else none
  | [] => none

/-- Reads a part of an address of version 4: at most three digits, and no needless zero. -/
def readByte : Reader Nat :=
  readNumber 10 255 fun digits =>
    digits.length ≤ 3 && (digits.head? != some '0' || digits.length == 1)

def readV4 : Reader (Nat × Nat × Nat × Nat) := fun text => do
  let (a, text) ← readByte text
  let (_, text) ← readChar '.' text
  let (b, text) ← readByte text
  let (_, text) ← readChar '.' text
  let (c, text) ← readByte text
  let (_, text) ← readChar '.' text
  let (d, text) ← readByte text
  some ((a, b, c, d), text)

/-- Reads a group: at most four hexadecimal digits. -/
def readGroup : Reader Nat :=
  readNumber 16 65535 fun digits => digits.length ≤ 4

def readSeparator (isFirst : Bool) : Reader Unit := fun text =>
  if isFirst then some ((), text) else readChar ':' text

/-- Reads groups, at most `room` of them, as far as they go. Where there is room for two, an address
of version 4 may stand for them; it ends the groups. The answer says whether it did. -/
def readGroups : Nat → Bool → List Char → List Nat × Bool × List Char
  | 0, _, text => ([], false, text)
  | room + 1, isFirst, text =>
    match (readSeparator isFirst text).bind fun (_, rest) => if 0 < room then readV4 rest else none with
    | some ((a, b, c, d), rest) => ([a * 256 + b, c * 256 + d], true, rest)
    | none =>
      match (readSeparator isFirst text).bind fun (_, rest) => readGroup rest with
      | some (group, rest) =>
        let (groups, embedded, after) := readGroups room false rest
        (group :: groups, embedded, after)
      | none => ([], false, text)

/-- Reads an address of version 6: eight groups, or fewer around `::`. -/
def readV6 : Reader (List Nat) := fun text =>
  let (front, embedded, rest) := readGroups 8 true text
  if front.length = 8 then some (front, rest)
  else if embedded then none
  else do
    let (_, rest) ← readChar ':' rest
    let (_, rest) ← readChar ':' rest
    let (back, _, rest) := readGroups (7 - front.length) true rest
    some (front ++ List.replicate (8 - front.length - back.length) 0 ++ back, rest)

def readService : Reader Nat := fun text => do
  let (_, rest) ← readChar ':' text
  readNumber 10 65535 (fun _ => true) rest

/-- Reads a scope after its percent sign; without one the scope is zero. -/
def readScope (text : List Char) : Nat × List Char :=
  ((readChar '%' text).bind fun (_, rest) =>
    readNumber 10 (Nat.pow 2 32 - 1) (fun _ => true) rest).getD (0, text)

def readSocketV4 : Reader SocketAddress := fun text => do
  let ((a, b, c, d), rest) ← readV4 text
  let (service, rest) ← readService rest
  some (.v4 a b c d service, rest)

def readSocketV6 : Reader SocketAddress := fun text => do
  let (_, rest) ← readChar '[' text
  let (groups, rest) ← readV6 rest
  let (scope, rest) := readScope rest
  let (_, rest) ← readChar ']' rest
  let (service, rest) ← readService rest
  some (.v6 groups scope service, rest)

def ofText? (text : String) : Option SocketAddress :=
  match (readSocketV4 text.toList).or (readSocketV6 text.toList) with
  | some (address, []) => some address
  | _ => none

def writeV4 (a b c d : Nat) : List Char :=
  decimal a ++ '.' :: decimal b ++ '.' :: decimal c ++ '.' :: decimal d

def writeGroups : List Nat → List Char
  | [] => []
  | [group] => hexadecimal group
  | group :: rest => hexadecimal group ++ ':' :: writeGroups rest

def zeroRun (groups : List Nat) : Nat :=
  (groups.takeWhile (· == 0)).length

/-- Where the longest run of zeros begins and how long it is; the first one if there are several. -/
def longestRun : List Nat → Nat × Nat
  | [] => (0, 0)
  | g :: rest =>
    let (start, length) := longestRun rest
    if length ≤ zeroRun (g :: rest) then (0, zeroRun (g :: rest)) else (start + 1, length)

def writeV6 (groups : List Nat) : List Char :=
  match groups with
  | [0, 0, 0, 0, 0, 0xFFFF, x, y] =>
    [':', ':'] ++ ['f', 'f', 'f', 'f', ':'] ++ writeV4 (x / 256) (x % 256) (y / 256) (y % 256)
  | _ =>
    let (start, length) := longestRun groups
    if length < 2 then writeGroups groups
    else writeGroups (groups.take start) ++ [':', ':'] ++ writeGroups (groups.drop (start + length))

def write : SocketAddress → List Char
  | .v4 a b c d service => writeV4 a b c d ++ ':' :: decimal service
  | .v6 groups scope service =>
    '[' :: writeV6 groups ++ (if scope = 0 then [] else '%' :: decimal scope)
      ++ [']', ':'] ++ decimal service

def text (address : SocketAddress) : String :=
  String.ofList address.write

end SocketAddress

end BuildProgress
