import Scriptlet.Fault
import Scriptlet.Shell.Path

/-!
# Folders and files

A small file system with the refusals of a real one. A place is the list of names that lead to it
from the root; paths that do not begin with a slash start at the home folder, which is always there.
-/
namespace Scriptlet

/-- The names that lead from the root to a folder or a file. -/
abbrev Place := List String

/-- Folders and files, and the home folder. -/
structure Files where
  home : Place
  folders : List Place := []
  contents : List (Place × List UInt8) := []

namespace Files

/-- Whether there is a folder at a place: the home folder is one, and so are those above it. -/
def isFolder (files : Files) (place : Place) : Bool :=
  place.isPrefixOf files.home || files.folders.contains place

def bytes? (files : Files) (place : Place) : Option (List UInt8) :=
  files.contents.lookup place

def occupied (files : Files) (place : Place) : Bool :=
  files.isFolder place || (files.bytes? place).isSome

/-- Goes along the parts of a path from a place; every part but the last must lead to a folder. -/
def walk (files : Files) (place : Place) : List String → Except FileRefusal Place
  | [] => .ok place
  | part :: rest =>
    if !files.isFolder place then .error .notFolder
    else if part = "" || part = "." then files.walk place rest
    else if part = ".." then files.walk place.dropLast rest
    else if 255 < part.utf8ByteSize then .error .nameTooLong
    else if files.occupied (place ++ [part]) then files.walk (place ++ [part]) rest
    else .error .notFound

def locate (files : Files) (path : String) : Except Fault Place :=
  if path.toList.contains '\x00' then .error .nullInPath
  else if path = "" then .error (.refused .notFound path)
  else if 4096 ≤ path.utf8ByteSize then .error (.refused .nameTooLong path)
  else
    let start := if path.startsWith "/" then [] else files.home
    match files.walk start (Path.parts path) with
    | .ok place => .ok place
    | .error cause => .error (.refused cause path)

def read (files : Files) (path : String) : Except Fault (List UInt8) := do
  let place ← files.locate path
  match files.bytes? place with
  | some bytes => return bytes
  | none => throw (.refused .isFolder path)

/-- The place of a path whose last part need not be there yet. -/
def locateNew (files : Files) (path : String) : Except Fault Place :=
  match files.locate path with
  | .error (.refused .notFound _) =>
    let above := Path.folder path
    match files.locate (if above ≠ "" then above else if path.startsWith "/" then "/" else ".") with
    | .ok place =>
      if Path.fileName path = "" then .error (.refused .notFound path)
      else .ok (place ++ [Path.fileName path])
    | .error _ => .error (.refused .notFound path)
  | result => result

def write (files : Files) (path : String) (bytes : List UInt8) : Except Fault Files := do
  let place ← files.locateNew path
  if files.isFolder place then throw (.refused .isFolder path)
  else
    let others := files.contents.filter fun entry => entry.1 != place
    return { files with contents := others ++ [(place, bytes)] }

def makeFolder (files : Files) (path : String) : Except Fault Files := do
  match files.locate path with
  | .ok _ => throw (.refused .occupied path)
  | .error _ =>
    let place ← files.locateNew path
    return { files with folders := files.folders ++ [place] }

/-- Makes the folders on the way that are not there. -/
def makeMissing (files : Files) : List String → Except Fault Files
  | [] => .ok files
  | path :: rest =>
    match files.locate path with
    | .ok _ => files.makeMissing rest
    | .error _ => do (← files.makeFolder path).makeMissing rest

/-- The paths that a path leads through, the longest one last; the path itself is left out. -/
def ancestors (path : String) : List String :=
  let parts := Path.parts path
  (List.range parts.length).filterMap fun n =>
    let above := "/".intercalate (parts.take n)
    if above = "" then none else some above

/-- Makes a folder and those on the way to it; a folder that is there already will do. -/
def makeFolders (files : Files) (path : String) : Except Fault Files := do
  let files ← files.makeMissing (ancestors path)
  match files.makeFolder path with
  | .ok files => return files
  | .error fault =>
    match files.locate path with
    | .ok place => if files.isFolder place then return files else throw fault
    | .error _ => throw fault

/-- Puts a file and the folders on the way to it. -/
def put (files : Files) (path : String) (bytes : List UInt8) : Except Fault Files := do
  let above := Path.folder path
  let files ← if above = "" then pure files else files.makeFolders above
  files.write path bytes

/-- The files below the home folder whose names end in `ending`, as paths from there, in order. -/
def listing (files : Files) (ending : String) : List (String × List UInt8) :=
  let found := files.contents.filterMap fun (place, bytes) =>
    if files.home.isPrefixOf place && (place.getLast?.getD "").endsWith ending then
      some ("/".intercalate (place.drop files.home.length), bytes)
    else none
  found.mergeSort fun a b => a.1 ≤ b.1

end Files

end Scriptlet
