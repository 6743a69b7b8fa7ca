/-
Paths: the steps they are made of, and the ending of the file name.
-/
import NetLower.Text.Blank

namespace NetLower

/-- A step of a path. -/
inductive PathStep where
  /-- Stay in the directory, written as a point. -/
  | stay
  /-- Go to the directory above, written as two points. -/
  | up
  | name (text : String)
  deriving DecidableEq, Repr

namespace PathStep

def ofText : String → PathStep
  | "." => stay
  | ".." => up
  | text => name text

end PathStep

namespace Path

/-- The most bytes that a name can have. -/
def nameLimit : Nat := 255

/-- The most bytes that a path can have. -/
def pathLimit : Nat := 4095

/-- The steps of a path. Slashes divide them, and several in a row are as good as one. -/
def steps (path : String) : List PathStep :=
  ((Text.splitAt '/' path).filter (· != "")).map PathStep.ofText

/-- A path with another ending: what follows the last point of the file name is replaced. A
point in front does not count. A name that comes down to two points is the directory above
and gets no ending. -/
def withEnding (path ending : String) : String :=
  let (nameReversed, folderReversed) := path.toList.reverse.span (· != '/')
  let folder := String.ofList folderReversed.reverse
  match nameReversed.span (· != '.') with
  | (_, [_, '.']) => folder ++ ".."
  | (_, _ :: c :: stem) => folder ++ String.ofList (c :: stem).reverse ++ "." ++ ending
  | _ => path ++ "." ++ ending

end Path

end NetLower
