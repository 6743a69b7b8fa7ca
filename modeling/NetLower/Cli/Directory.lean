/-
A working directory that is kept in memory, and what paths lead to in it.
-/
import NetLower.Bytes
import NetLower.Cli.Path
import NetLower.Error

namespace NetLower

/-- A directory that a path can lead to. -/
inductive Place where
  | root
  /-- The working directory, or the one so many levels above it. -/
  | above (levels : Nat)
  deriving DecidableEq, Repr

namespace Place

/-- The directory above. -/
def up : Place → Place
  | root => root
  | above levels => above (levels + 1)

/-- Where a path starts. -/
def start (path : String) : Place := if path.startsWith "/" then root else above 0

end Place

/-- A name in a directory. -/
structure Entry where
  place : Place
  name : String
  deriving DecidableEq, Repr

/-- Where a path leads. -/
inductive Destination where
  | directory
  | entry (entry : Entry)
  deriving DecidableEq, Repr

/-- A working directory, the ones above it and the root, with their files. The only
subdirectories are those on the way to the working directory, and they have no names. -/
structure Directory where
  files : List (Entry × Bytes) := []

namespace Directory

/-- A working directory with files. -/
def ofFiles (files : List (String × Bytes)) : Directory where
  files := files.map fun (name, contents) => (⟨.above 0, name⟩, contents)

/-- The files of the working directory itself. -/
def listing (d : Directory) : List (String × Bytes) :=
  d.files.filterMap fun (entry, contents) =>
    if entry.place = .above 0 then some (entry.name, contents) else none

/-- The contents of a file. -/
def get? (d : Directory) (e : Entry) : Option Bytes := d.files.lookup e

/-- What looking a name up finds, if the name is not too long. -/
def lookUp (d : Directory) (e : Entry) : Except FileError (Option Bytes) :=
  if e.name.utf8ByteSize ≤ Path.nameLimit then .ok (d.get? e) else .error .nameTooLong

/-- Follow the steps of a path. Only the last can be the name of a file. -/
def follow (d : Directory) (place : Place) : List PathStep → Except FileError Destination
  | [] => .ok .directory
  | .stay :: rest => d.follow place rest
  | .up :: rest => d.follow place.up rest
  | [.name name] => .ok (.entry ⟨place, name⟩)
  | .name name :: _ :: _ => do
    match ← d.lookUp ⟨place, name⟩ with
    | some _ => throw .notDirectory
    | none => throw .notFound

/-- Where a path leads. -/
def locate (d : Directory) (path : String) : Except FileError Destination :=
  if path.isEmpty then .error .notFound
  else if path.utf8ByteSize ≤ Path.pathLimit then d.follow (.start path) (Path.steps path)
  else .error .nameTooLong

/-- The contents of the file that a path leads to. A slash at the end asks for a directory. -/
def read (d : Directory) (path : String) : Except FileError Bytes := do
  match ← d.locate path with
  | .directory => throw .isDirectory
  | .entry e =>
    match ← d.lookUp e with
    | some contents => if path.endsWith "/" then throw .notDirectory else return contents
    | none => throw .notFound

/-- The directory with a file written. No file is made where a slash at the end asks for a
directory. -/
def write (d : Directory) (path : String) (contents : Bytes) : Except FileError Directory := do
  match ← d.locate path with
  | .directory => throw .isDirectory
  | .entry e =>
    if path.endsWith "/" then throw .isDirectory
    let _ ← d.lookUp e
    return { files := d.files.filter (fun f => f.1 != e) ++ [(e, contents)] }

end Directory

end NetLower
