/-!
# Records of the binary wire format

A message is a list of records. A record has the number of its field and a payload of one of five
shapes; a message inside a message is a payload of delimited bytes. Reading a message gives its
records, whatever their meaning, and refuses bytes that do not divide into records exactly.
-/

namespace BuildProgress.Wire

set_option autoImplicit false

abbrev Bytes := List UInt8

/-- The content of a record. A group is read over and its records are not kept. -/
inductive Payload where
  | varint (value : Nat)
  | fixed64 (bytes : Bytes)
  | delimited (bytes : Bytes)
  | group
  | fixed32 (bytes : Bytes)
deriving DecidableEq, Repr

structure Record where
  number : Nat
  payload : Payload
deriving DecidableEq, Repr

/-- The shape that the low three bits of a key announce. -/
inductive Kind where
  | varint
  | fixed64
  | delimited
  | startGroup
  | endGroup
  | fixed32
deriving DecidableEq, Repr

/-- The shape with a code; 6 and 7 announce none. -/
def Kind.ofCode? : Nat → Option Kind
  | 0 => some .varint
  | 1 => some .fixed64
  | 2 => some .delimited
  | 3 => some .startGroup
  | 4 => some .endGroup
  | 5 => some .fixed32
  | _ => none

/-- Reads a number of at most `left` groups of seven bits, the lowest first. The last group that is
allowed holds a single bit, so that the number fits 64 bits. -/
def varintFrom : Nat → Bytes → Option (Nat × Bytes)
  | 0, _ => none
  | _ + 1, [] => none
  | left + 1, b :: rest =>
    if left = 0 ∧ 1 < b.toNat then none
    else if b.toNat < 128 then some (b.toNat, rest)
    else do
      let (high, after) ← varintFrom left rest
      some (b.toNat - 128 + 128 * high, after)

def readVarint (bytes : Bytes) : Option (Nat × Bytes) :=
  varintFrom 10 bytes

def varintBytes : Nat → Nat → Bytes
  | 0, _ => []
  | left + 1, n =>
    if n < 128 then [UInt8.ofNat n] else UInt8.ofNat (n % 128 + 128) :: varintBytes left (n / 128)

def writeVarint (n : Nat) : Bytes :=
  varintBytes 10 n

/-- Reads the key of a record: the number of its field, at least 1, and the shape of its payload.
Keys fit 32 bits. -/
def readKey (bytes : Bytes) : Option (Nat × Kind × Bytes) := do
  let (key, rest) ← readVarint bytes
  let kind ← Kind.ofCode? (key % 8)
  if key < Nat.pow 2 32 ∧ 1 ≤ key / 8 then some (key / 8, kind, rest) else none

def takeExactly (n : Nat) (bytes : Bytes) : Option (Bytes × Bytes) :=
  if n ≤ bytes.length then some (bytes.take n, bytes.drop n) else none

def readDelimited (bytes : Bytes) : Option (Bytes × Bytes) := do
  let (n, rest) ← readVarint bytes
  takeExactly n rest

/-- Reads over the records of open groups up to the end of the outermost one. `opened` holds the
numbers of the groups that are open, the innermost first; a record may stand inside fewer than
`depth` of them. Each record spends one unit of `fuel`. -/
def skipGroups (depth : Nat) : Nat → List Nat → Bytes → Option Bytes
  | _, [], bytes => some bytes
  | 0, _ :: _, _ => none
  | fuel + 1, inner :: outer, bytes => do
    let (number, kind, rest) ← readKey bytes
    if kind = .endGroup then
      if number = inner then skipGroups depth fuel outer rest else none
    else if depth ≤ outer.length + 1 then none
    else match kind with
      | .startGroup => skipGroups depth fuel (number :: inner :: outer) rest
      | .varint => do
        let (_, after) ← readVarint rest
        skipGroups depth fuel (inner :: outer) after
      | .fixed64 => do
        let (_, after) ← takeExactly 8 rest
        skipGroups depth fuel (inner :: outer) after
      | .delimited => do
        let (_, after) ← readDelimited rest
        skipGroups depth fuel (inner :: outer) after
      | .fixed32 => do
        let (_, after) ← takeExactly 4 rest
        skipGroups depth fuel (inner :: outer) after
      | .endGroup => none

def readPayload (depth : Nat) (number : Nat) (kind : Kind) (bytes : Bytes) :
    Option (Payload × Bytes) :=
  match kind with
  | .varint => (readVarint bytes).map fun (n, rest) => (.varint n, rest)
  | .fixed64 => (takeExactly 8 bytes).map fun (b, rest) => (.fixed64 b, rest)
  | .delimited => (readDelimited bytes).map fun (b, rest) => (.delimited b, rest)
  | .startGroup =>
    (skipGroups depth bytes.length [number] bytes).map fun rest => (.group, rest)
  | .endGroup => none
  | .fixed32 => (takeExactly 4 bytes).map fun (b, rest) => (.fixed32 b, rest)

def recordsFrom (depth : Nat) : Nat → Bytes → Option (List Record)
  | _, [] => some []
  | 0, _ :: _ => none
  | fuel + 1, byte :: more => do
    let (number, kind, rest) ← readKey (byte :: more)
    let (payload, after) ← readPayload depth number kind rest
    let records ← recordsFrom depth fuel after
    some (⟨number, payload⟩ :: records)

/-- Reads the records of a message in which groups nest at most `depth` deep. Every record takes a
byte at least, so as many units of fuel as there are bytes are enough. -/
def readRecords (depth : Nat) (bytes : Bytes) : Option (List Record) :=
  recordsFrom depth bytes.length bytes

def writeKey (number code : Nat) : Bytes :=
  writeVarint (number * 8 + code)

/-- Writes a record. A group is written empty. -/
def Record.write (r : Record) : Bytes :=
  match r.payload with
  | .varint n => writeKey r.number 0 ++ writeVarint n
  | .fixed64 bytes => writeKey r.number 1 ++ bytes
  | .delimited bytes => writeKey r.number 2 ++ writeVarint bytes.length ++ bytes
  | .group => writeKey r.number 3 ++ writeKey r.number 4
  | .fixed32 bytes => writeKey r.number 5 ++ bytes

def writeRecords (records : List Record) : Bytes :=
  records.flatMap Record.write

def Record.unsigned? (r : Record) : Option Nat :=
  match r.payload with
  | .varint n => some n
  | _ => none

def Record.signed64? (r : Record) : Option Int :=
  r.unsigned?.map fun n => (n : Int).bmod (Nat.pow 2 64)

def Record.signed32? (r : Record) : Option Int :=
  r.unsigned?.map fun n => (n : Int).bmod (Nat.pow 2 32)

/-- The payload as a truth value: any number but zero is true. -/
def Record.bool? (r : Record) : Option Bool :=
  r.unsigned?.map (· != 0)

def Record.bytes? (r : Record) : Option Bytes :=
  match r.payload with
  | .delimited bytes => some bytes
  | _ => none

end BuildProgress.Wire
