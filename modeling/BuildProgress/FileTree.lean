import BuildProgress.Path
import BuildProgress.Text.Utf8

/-!
# File trees

Directories, files and symbolic links under one root, as a process sees them that has a working
directory. A path is walked component by component, from the root or, if it is relative, from the
working directory; a link is replaced by its target, at most forty times in one path. Paths and names
that are too long lead nowhere.
-/

namespace BuildProgress

set_option autoImplicit false

open BuildProgress.Text

inductive FileNode where
  | directory (entries : List (List Char × FileNode))
  | file (content : List UInt8)
  | link (target : String)
deriving Repr

/-- A place in a tree: the names that lead to it from the root. -/
abbrev Place := List (List Char)

namespace FileNode

def entries : FileNode → List (List Char × FileNode)
  | directory entries => entries
  | _ => []

def isDirectory : FileNode → Bool
  | directory _ => true
  | _ => false

def entry? (node : FileNode) (name : List Char) : Option FileNode :=
  (node.entries.find? (·.1 = name)).map (·.2)

/-- Puts a node under a name, in place of the one that is there. -/
def setEntry (name : List Char) (new : FileNode) :
    List (List Char × FileNode) → List (List Char × FileNode)
  | [] => [(name, new)]
  | (other, old) :: rest =>
    if other = name then (name, new) :: rest else (other, old) :: setEntry name new rest

def node? (node : FileNode) : Place → Option FileNode
  | [] => some node
  | name :: rest => (node.entry? name).bind fun next => next.node? rest

def put (new : FileNode) : Place → FileNode → FileNode
  | [], _ => new
  | name :: rest, node =>
    let next := (node.entry? name).getD (.directory [])
    .directory (setEntry name (put new rest next) node.entries)

end FileNode

/-- A tree, whose root is a directory, and the path of the working directory in it. -/
structure FileTree where
  root : FileNode := .directory []
  workingDirectory : Path := "/"
deriving Repr

/-- A way down from the root: the names and what stands there, the innermost first. -/
abbrev Trail := List (List Char × FileNode)

def Trail.place (trail : Trail) : Place :=
  (trail.map (·.1)).reverse

/-- Where a path leads. -/
inductive Target where
  | found (trail : Trail)
  | vacant (trail : Trail) (name : List Char)
  | missing
  /-- Nowhere: something on the way is no directory, a name or the path is too long, or there are
  too many links. -/
  | refused

/-- What comes of making something. -/
inductive Making (α : Type) where
  | made (result : α)
  | present
  | missing
  | refused

namespace FileTree

def node? (tree : FileTree) (place : Place) : Option FileNode :=
  tree.root.node? place

def put (tree : FileTree) (place : Place) (node : FileNode) : FileTree :=
  { tree with root := FileNode.put node place tree.root }

def atEnd (tree : FileTree) : Trail → FileNode
  | [] => tree.root
  | (_, node) :: _ => node

/-- Whether something can be made under a name: at most 255 bytes, none of them zero. -/
def isName (segment : List Char) : Bool :=
  (Utf8.encode segment).length ≤ 255 && !segment.contains '\x00'

/-- Walks along segments from the end of a trail. At a link, `follow` goes on from the directory of
the link along the segments of its target. -/
def walk (tree : FileTree) (follow : Trail → List (List Char) → Target) (trail : Trail) :
    List (List Char) → Target
  | [] => .found trail
  | segment :: rest =>
    let node := tree.atEnd trail
    if !node.isDirectory then .refused
    else if Path.isIdle segment then walk tree follow trail rest
    else if segment = ['.', '.'] then walk tree follow trail.tail rest
    else
      match node.entry? segment with
      | none =>
        if !isName segment then .refused
        else if rest.isEmpty then .vacant trail segment
        else .missing
      | some (.link target) =>
        let start := if Path.isAbsolute target then [] else trail
        follow start (splitAll '/' target.toList ++ rest)
      | some next => walk tree follow ((segment, next) :: trail) rest

/-- Walks along segments, through at most `links` links. -/
def resolveFrom (tree : FileTree) : Nat → Trail → List (List Char) → Target
  | 0 => walk tree fun _ _ => .refused
  | links + 1 => walk tree (resolveFrom tree links)

def maxLinks : Nat := 40

def maxPath : Nat := 4095

def isWalkable (p : Path) : Bool :=
  p != "" && p.utf8ByteSize ≤ maxPath

/-- The trail from whose end a path is walked: that of the root, or that of the working directory if
the path is relative. There is none if the working directory is gone. -/
def start? (tree : FileTree) (p : Path) : Option Trail :=
  if Path.isAbsolute p then some []
  else match tree.resolveFrom maxLinks [] (splitAll '/' tree.workingDirectory.toList) with
    | .found trail => some trail
    | _ => none

/-- Walks along some segments of a path. -/
def resolveIn (tree : FileTree) (p : Path) (segments : List (List Char)) : Target :=
  match tree.start? p with
  | some trail => tree.resolveFrom maxLinks trail segments
  | none => .missing

def resolve (tree : FileTree) (p : Path) : Target :=
  if isWalkable p then tree.resolveIn p (splitAll '/' p.toList) else .refused

def lookup (tree : FileTree) (p : Path) : Option (Place × FileNode) :=
  match tree.resolve p with
  | .found trail => some (trail.place, tree.atEnd trail)
  | _ => none

def exists? (tree : FileTree) (p : Path) : Bool :=
  (tree.lookup p).isSome

def isDirectory (tree : FileTree) (p : Path) : Bool :=
  match tree.lookup p with
  | some (_, node) => node.isDirectory
  | none => false

def content? (tree : FileTree) (p : Path) : Option (List UInt8) :=
  match tree.lookup p with
  | some (_, .file content) => some content
  | _ => none

def isFile (tree : FileTree) (p : Path) : Bool :=
  (tree.content? p).isSome

def placePath (place : Place) : Path :=
  String.ofList ('/' :: Path.joinSegments place)

/-- The path to the same thing without links and without components that say nothing or go up. -/
def canonical? (tree : FileTree) (p : Path) : Option Path :=
  (tree.lookup p).map fun (place, _) => placePath place

def readText? (tree : FileTree) (p : Path) : Option String :=
  ((tree.content? p).bind Utf8.decode?).map String.ofList

def write? (tree : FileTree) (p : Path) (content : List UInt8) : Option FileTree :=
  match tree.resolve p with
  | .found trail =>
    match tree.atEnd trail with
    | .file _ => some (tree.put trail.place (.file content))
    | _ => none
  | .vacant trail name => some (tree.put (trail.place ++ [name]) (.file content))
  | _ => none

/-- Makes something under a name in the directory to which a trail leads. The names `.` and `..` are
always taken. -/
def createAt (tree : FileTree) (trail : Trail) (name : List Char) (node : FileNode) :
    Making FileTree :=
  let directory := tree.atEnd trail
  if !directory.isDirectory then .refused
  else if name = ['.'] || name = ['.', '.'] || (directory.entry? name).isSome then .present
  else if isName name then .made (tree.put (trail.place ++ [name]) node)
  else .refused

/-- Makes something at the end of a path. A link that is there is not followed. -/
def create (tree : FileTree) (p : Path) (node : FileNode) : Making FileTree :=
  if !isWalkable p then .refused
  else match ((splitAll '/' p.toList).filter (!·.isEmpty)).reverse with
    | [] => .present
    | name :: before =>
      match tree.resolveIn p before.reverse with
      | .found trail => tree.createAt trail name node
      | .vacant _ _ | .missing => .missing
      | .refused => .refused

/-- The tree with a directory at the end of a path, given what came of making it. -/
def withDirectory? (tree : FileTree) (p : Path) : Making FileTree → Option FileTree
  | .made later => some later
  | .present => if tree.isDirectory p then some tree else none
  | .missing | .refused => none

/-- Makes the first of some paths a directory. Each of them is the parent of the one before it, and
is made a directory if that is missing. -/
def makeAlong (tree : FileTree) : List Path → Option FileTree
  | [] => some tree
  | p :: parents =>
    match tree.create p (.directory []) with
    | .missing => do
      let tree ← makeAlong tree parents
      tree.withDirectory? p (tree.create p (.directory []))
    | making => tree.withDirectory? p making

def makeDirectories? (tree : FileTree) (p : Path) : Option FileTree :=
  tree.makeAlong p.ancestors

end FileTree

end BuildProgress
