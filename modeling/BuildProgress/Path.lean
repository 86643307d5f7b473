import BuildProgress.Text.Lines

/-!
# Paths

A path is a text in which slashes separate names. It counts by its components: repeated slashes and
a `.` after the first place say nothing, while a leading `.`, and `..` anywhere, are components.
-/

namespace BuildProgress

set_option autoImplicit false

open BuildProgress.Text

abbrev Path := String

inductive Component where
  | root
  | here
  | up
  | name (text : List Char)
deriving DecidableEq, Repr

def Component.text : Component → List Char
  | root => ['/']
  | here => ['.']
  | up => ['.', '.']
  | name text => text

namespace Path

def isAbsolute (p : Path) : Bool :=
  p.toList.head? == some '/'

/-- The leading component that is not a plain segment, as it is written, and the text after it. -/
def splitHead : List Char → List Char × List Char
  | '/' :: rest => (['/'], rest)
  | ['.'] => (['.'], [])
  | '.' :: '/' :: rest => (['.'], '/' :: rest)
  | text => ([], text)

/-- A segment that says nothing. -/
def isIdle (segment : List Char) : Bool :=
  segment == [] || segment == ['.']

def component (segment : List Char) : Component :=
  if segment = ['.', '.'] then .up else .name segment

def headComponents (head : List Char) : List Component :=
  if head = ['/'] then [.root] else if head = ['.'] then [.here] else []

def components (p : Path) : List Component :=
  let (head, rest) := splitHead p.toList
  headComponents head ++ ((splitAll '/' rest).filter (!isIdle ·)).map component

/-- Takes the segments that say nothing away from the end. -/
def dropIdle (segments : List (List Char)) : List (List Char) :=
  (segments.reverse.dropWhile isIdle).reverse

def joinSegments : List (List Char) → List Char
  | [] => []
  | [segment] => segment
  | segment :: rest => segment ++ '/' :: joinSegments rest

/-- The path without its last component, as far as it is written; the root and the empty path have
none. -/
def parent? (p : Path) : Option Path :=
  let (head, rest) := splitHead p.toList
  match (dropIdle (splitAll '/' rest)).reverse with
  | _ :: before => some (String.ofList (head ++ joinSegments (dropIdle before.reverse)))
  | [] => if head = ['.'] then some "" else none

/-- A path, its parent, the parent of that and so on, at most `count` of them. What has no parent is
left out. -/
def ancestorsFrom : Nat → Path → List Path
  | 0, _ => []
  | count + 1, p =>
    match p.parent? with
    | some parent => p :: ancestorsFrom count parent
    | none => []

/-- A path, its parent, the parent of that and so on, without the root and the empty path. A parent
is shorter than its path, so that there are no more of them than the path has characters. -/
def ancestors (p : Path) : List Path :=
  ancestorsFrom p.length p

def fileName? (p : Path) : Option String :=
  match p.components.getLast? with
  | some (.name text) => some (String.ofList text)
  | _ => none

def join (p q : Path) : Path :=
  if isAbsolute q then q
  else if p = "" || p.toList.getLast? == some '/' then p ++ q
  else p ++ "/" ++ q

/-- The components of a path after those of another that it begins with. -/
def componentsAfter? (p base : Path) : Option (List Component) :=
  List.isPrefixOf? base.components p.components

def startsWith (p base : Path) : Bool :=
  (p.componentsAfter? base).isSome

/-- Components with slashes between them. The root is written as a component like any other. -/
def joinComponents (cs : List Component) : String :=
  String.ofList (joinSegments (cs.map Component.text))

end Path

end BuildProgress
