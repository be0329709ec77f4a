import Cadence.Table.Basic

/-!
A tree of files, as far as reading one of them can tell.

Files are given by their paths, which start at the working directory or, with a
slash, at the root; directories are there because they are given or because
files lie in them.  A path is resolved name by name, and the first name that
cannot be followed decides the error.  Nothing is known above the working
directory but that there are directories.
-/

namespace Cadence

structure FileTree where
  files : Table String ByteArray := ∅
  directories : List String := []

inductive FileError where
  | missing
  | notDirectory
  | isDirectory
  | nameTooLong
  | hasNul
  | notText
  deriving DecidableEq, Repr

def FileError.message : FileError → String
  | missing => "No such file or directory (os error 2)"
  | notDirectory => "Not a directory (os error 20)"
  | isDirectory => "Is a directory (os error 21)"
  | nameTooLong => "File name too long (os error 36)"
  | hasNul => "file name contained an unexpected NUL byte"
  | notText => "stream did not contain valid UTF-8"

namespace FileTree

def splitPath (path : String) : List String :=
  (path.toList.splitOnP (· = '/')).map String.ofList

/-- Where a path starts. -/
def start (path : String) : List String := if path.startsWith "/" then ["/"] else []

/-- The place that a path without `..` leads to: the names on the way, from its start on. -/
def placeOf (path : String) : List String :=
  start path ++ (splitPath path).filter (fun n => n ≠ "" && n ≠ ".")

/-- What a place in the tree holds. -/
inductive Entry where
  | file (content : ByteArray)
  | directory

def entry? (t : FileTree) (place : List String) : Option Entry :=
  match t.files.toList.find? (fun (path, _) => placeOf path = place) with
  | some (_, content) => some (.file content)
  | none =>
      if place.isEmpty || place = ["/"] ||
          (t.files.keys ++ t.directories).any (fun path => place.isPrefixOf (placeOf path)) then
        some .directory
      else none

/-- Follows the names from `place` on; a name behind a file asks for a directory. -/
def follow (t : FileTree) : (place : List String) → List String → Except FileError Entry
  | place, [] =>
      match t.entry? place with
      | some e => .ok e
      | none => .error .missing
  | place, name :: rest =>
      match t.entry? place with
      | none => .error .missing
      | some (.file _) => .error .notDirectory
      | some .directory =>
          if name = "" || name = "." then follow t place rest
          else if name = ".." then
            if place.isEmpty then
              if rest.all (fun n => n = "" || n = "." || n = "..") then .ok .directory
              else .error .missing
            else if place = ["/"] then follow t place rest
            else follow t place.dropLast rest
          else if 255 < name.utf8ByteSize then .error .nameTooLong
          else follow t (place ++ [name]) rest

def read (t : FileTree) (path : String) : Except FileError String := do
  if path.any (· = '\x00') then throw .hasNul
  if path = "" then throw .missing
  if 4096 ≤ path.utf8ByteSize then throw .nameTooLong
  match ← t.follow (start path) (splitPath path) with
  | .directory => throw .isDirectory
  | .file content =>
      match String.fromUTF8? content with
      | some text => return text
      | none => throw .notText

end FileTree

/-- The last name of a path without what follows its last dot, unless the dot comes first. -/
def fileStem? (path : String) : Option String :=
  let names := (FileTree.splitPath path).filter (fun n => n ≠ "")
  let names := if names.length > 1 || path.startsWith "/" then names.filter (· ≠ ".") else names
  match names.getLast? with
  | none | some ".." | some "." => none
  | some name =>
      let behind := (name.toList.reverse.dropWhile (· ≠ '.')).drop 1
      if behind.isEmpty then some name else some (String.ofList behind.reverse)

end Cadence
