/-!
# Paths

Paths as texts: their parts, the normal form of a path seen from a folder, and the names of a file
with and without its extension.
-/
namespace Scriptlet.Path

/-- The parts of a path, with empty ones where two slashes meet or where a slash begins or ends
the path. -/
def parts (path : String) : List String :=
  path.splitOn "/"

/-- Removes the parts that lead nowhere: empty ones, single dots, and a folder together with the
two dots behind it. `above` holds the parts so far, the last one first; dots that nothing stands
before are kept where the path is relative. -/
def normalParts (rooted : Bool) (above : List String) : List String → List String
  | [] => above.reverse
  | part :: rest =>
    if part = "" || part = "." then normalParts rooted above rest
    else if part = ".." then
      match above with
      | [] => normalParts rooted (if rooted then [] else [part]) rest
      | last :: others => normalParts rooted (if last = ".." then part :: above else others) rest
    else normalParts rooted (part :: above) rest

/-- The slashes that a path begins with in its normal form: two stay two, and more become one. -/
def root (path : String) : String :=
  if path.startsWith "///" then "/"
  else if path.startsWith "//" then "//"
  else if path.startsWith "/" then "/"
  else ""

/-- The normal form of a path. It ends before a null character. -/
def normal (path : String) : String :=
  let start := root path
  let text := start ++ "/".intercalate (normalParts (start ≠ "") [] (parts path))
  if text = "" then "." else String.ofList (text.toList.takeWhile (· != '\x00'))

/-- A path seen from the folder `home`, in normal form. -/
def absolute (home path : String) : String :=
  if path.startsWith "/" then normal path else normal (home ++ "/" ++ path)

/-- The part behind the last slash. -/
def fileName (path : String) : String :=
  (parts path).getLast?.getD ""

/-- What stands before the last slash. -/
def folder (path : String) : String :=
  "/".intercalate (parts path).dropLast

/-- A file name without its extension, which begins at the last dot; dots at the very beginning
begin none. -/
def stem (name : String) : String :=
  let reversed := name.toList.reverse
  let before := (reversed.dropWhile (· != '.')).drop 1
  if before.any (· != '.') then String.ofList before.reverse else name

end Scriptlet.Path
