import BuildProgress.FileTree
import BuildProgress.Location
import BuildProgress.Text.Decimal

/-!
# Identifiers

Random identifiers of sessions and builds, and the identifier of this machine, which is made once
and kept in a file.
-/

namespace BuildProgress

set_option autoImplicit false

open BuildProgress.Text

/-- A source of random bytes, by their number. -/
abbrev RandomBytes := Nat → UInt8

namespace Identifier

/-- The byte at a place of a random identifier. Two places tell that the identifier is a random
one. -/
def byteAt (random : RandomBytes) (place : Nat) : UInt8 :=
  let byte := random place
  if place = 6 then (byte &&& 0x0F) ||| 0x40
  else if place = 8 then (byte &&& 0x3F) ||| 0x80
  else byte

def short (random : RandomBytes) : String :=
  String.ofList (bytesHex ((List.range 16).map (byteAt random)))

def long (random : RandomBytes) : String :=
  short random ++ short fun place => random (place + 16)

/-- The identifier of this machine, which is kept in a directory. If it is not there yet, `fresh` is
kept; if it cannot be kept or read, the path of the directory is used. -/
def ofNode (tree : FileTree) (directory : Path) (fresh : String) : String × FileTree :=
  match tree.makeDirectories? directory with
  | none => (directory, tree)
  | some tree =>
    let file := Location.nodeFile directory
    let kept :=
      if tree.exists? file then some tree else tree.write? file (Utf8.encode fresh.toList)
    match kept with
    | none => (directory, tree)
    | some tree => ((tree.readText? file).getD directory, tree)

end Identifier

end BuildProgress
