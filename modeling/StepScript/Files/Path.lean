/-!
# Files/Path — paths as texts

A path is kept as it was written: messages show it, so joining never tidies up. What a path means is
the sequence of its *steps*, and `Files/Tree` walks along them.
-/

namespace StepScript.Path

/-- The parts of a text between slashes; there is always at least one. -/
def splitSlash : List Char → List (List Char)
  | [] => [[]]
  | c :: cs =>
    if c = '/' then [] :: splitSlash cs
    else
      match splitSlash cs with
      | [] => [[c]]
      | part :: parts => (c :: part) :: parts

/-- Whether a path starts at the root. -/
def isAbsolute (path : String) : Bool := path.toList.head? = some '/'

/-- Whether a path ends in a slash. -/
def endsInSlash (path : String) : Bool := path.toList.getLast? = some '/'

/-- **Continues a path by another.** An absolute path stands for itself. -/
def join (base path : String) : String :=
  if isAbsolute path then path
  else if base.isEmpty || endsInSlash base then base ++ path
  else base ++ "/" ++ path

/-- **The steps of a path**: its non-empty parts. -/
def steps (path : String) : List String :=
  ((splitSlash path.toList).filter (!·.isEmpty)).map String.ofList

/-- The path with these parts, which are given in reverse. -/
def ofParts (parts : List (List Char)) : String := "/".intercalate (parts.reverse.map String.ofList)

/-- The paths that end with a part of their own, longest first; the parts are given in reverse. A
single point counts only as the first part. -/
def stages : List (List Char) → List String
  | [] => []
  | part :: outer =>
    if part = [] || (part = ['.'] && outer ≠ []) then stages outer
    else ofParts (part :: outer) :: stages outer

/-- **The directories on the way to what a path names**, nearest first, as the path spells them. -/
def enclosing (path : String) : List String := (stages (splitSlash path.toList).reverse).drop 1

/-- The characters after the last point of a file name, if something stands before that point. -/
def fileExtension? (name : String) : Option String :=
  match name.toList.reverse.span (· != '.') with
  | (extension, '.' :: _ :: _) => some (String.ofList extension.reverse)
  | _ => none

end StepScript.Path
