import Lockstep.Source.Zstd.Decoder

/-! Inputs by their paths.

A file system answers a path with a stream or an error, and what it has may be compressed:
then a decoder reads it, of which nothing is known here (`Files`). A file system that is
known in full is a tree of names (`Tree`): a path is walked name by name, and the walk ends
where a name is missing, too long, or looked for in what is no directory. A path with a NUL
character is not walked at all. A directory opens like a file, and its first read fails. -/
namespace Lockstep

structure Files where
  /-- What opening a path gives. -/
  find : Text → Except OpenError Stream
  /-- What reads a compressed file. -/
  decode : StreamDecoder

/-- Whether a path holds a NUL character, which would end it early. -/
def hasNul (path : Text) : Bool := path.contains '\x00'

def Stream.directory : Stream := { failure := some (.system .isDirectory) }

/-! ### Compressed files by their names -/

/-- The names of a path, without those that do not lead anywhere. -/
def pathNames (path : Text) : List Text :=
  (pieces (· == '/') path).filter fun name => !name.isEmpty && name != ['.']

/-- What follows the last dot of the path's last name, if something stands before it. -/
def extension? (path : Text) : Option Text :=
  match (pathNames path).getLast? with
  | none => none
  | some name =>
    if name == "..".toList then none
    else match Text.splitLast ['.'] name with
      | some (_ :: _, extension) => some extension
      | _ => none

def isCompressed (path : Text) : Bool := extension? path == some "zst".toList

/-- An input as it is read: decoded if its name says so. -/
def Files.openStream (files : Files) (path : Text) : Except OpenError Stream := do
  let stream ← files.find path
  if isCompressed path then files.decode stream else .ok stream

/-! ### Trees of files -/

inductive Node where
  | file (bytes : List UInt8)
  | directory
  deriving DecidableEq, Repr

/-- A directory's content: files and directories by the names that lead to them. The
directories on the way to an entry are there too. -/
abbrev Tree := List (List Text × Node)

namespace Tree

def node? (tree : Tree) (names : List Text) : Option Node :=
  match tree.find? (·.1 == names) with
  | some (_, node) => some node
  | none =>
    if names.isEmpty || tree.any (fun (entry, _) => names.isPrefixOf entry) then some .directory
    else none

inductive Place where
  /-- At what the names lead to. -/
  | inside (names : List Text) (node : Node)
  /-- In a directory above the tree, of which nothing else is known. -/
  | outside

def nameMaximum : Nat := 255

def pathMaximum : Nat := 4095

def byteLength (text : Text) : Nat := text.foldl (fun n c => n + c.utf8Size) 0

/-- One name further. -/
def step (tree : Tree) (place : Place) (name : Text) : Except SystemError Place :=
  match place with
  | .inside _ (.file _) => .error .notDirectory
  | .inside names .directory =>
    if name.isEmpty || name == ['.'] then .ok place
    else if name == "..".toList then
      .ok (if names.isEmpty then .outside else .inside names.dropLast .directory)
    else if nameMaximum < byteLength name then .error .nameTooLong
    else match tree.node? (names ++ [name]) with
      | some node => .ok (.inside (names ++ [name]) node)
      | none => .error .notFound
  | .outside =>
    if name.isEmpty || name == ['.'] || name == "..".toList then .ok .outside
    else if nameMaximum < byteLength name then .error .nameTooLong
    else .error .notFound

/-- A whole path: from the tree's root, or from outside if it begins with a slash. -/
def walk (tree : Tree) (path : Text) : Except SystemError Place :=
  if path.isEmpty then .error .notFound
  else if pathMaximum < byteLength path then .error .nameTooLong
  else
    let start := if path.head? == some '/' then Place.outside else .inside [] .directory
    (pieces (· == '/') path).foldlM tree.step start

def Place.stream : Place → Stream
  | .inside _ (.file bytes) => { bytes }
  | _ => .directory

def find (tree : Tree) (path : Text) : Except OpenError Stream :=
  if hasNul path then .error .nulInPath
  else match tree.walk path with
    | .ok place => .ok place.stream
    | .error error => .error (.system error)

def files (tree : Tree) : Files := { find := tree.find, decode := Zstd.decoder }

end Tree

end Lockstep
