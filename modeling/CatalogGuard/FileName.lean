/-!
# File names

The parts of a path stand between its slashes.  A part that is empty or a single point stays where
it is.  A name has an extension behind its last point, unless that point comes first.

Paths are joined as texts.  Idle parts remain then, and so does a slash at the end of a directory,
which is not followed by another one.
-/

namespace CatalogGuard.FileName

/-- Whether a part of a path stays where it is. -/
def isIdle (part : List Char) : Bool := part == [] || part == ['.']

/-- The parts of a path without the idle ones at its end. -/
def partsToLast (path : List Char) : List (List Char) :=
  ((path.splitOn '/').reverse.dropWhile isIdle).reverse

/-- The last part of a path. -/
def last (path : String) : String :=
  String.ofList ((path.toList.splitOn '/').getLast?.getD [])

/-- A path that is taken from a directory.  One that starts with a slash stands for itself. -/
def join (directory path : String) : String :=
  if path.toList.head? = some '/' then path
  else if directory.toList.getLast?.all (· == '/') then directory ++ path
  else directory ++ "/" ++ path

/-- Whether a name has exactly the given extension: it ends in a point and the extension, with
something in front of the point. -/
def hasExtension (extension name : String) : Bool :=
  let ending := '.' :: extension.toList
  ending.isSuffixOf name.toList && ending.length < name.toList.length

/-- The path with an extension behind its last part, unless that leads back. -/
def extend? (path extension : String) : Option String :=
  let parts := partsToLast path.toList
  match parts.getLast? with
  | none => none
  | some name =>
    if name = ['.', '.'] then none
    else some (String.ofList (['/'].intercalate parts ++ '.' :: extension.toList))

end CatalogGuard.FileName
