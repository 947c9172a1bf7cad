import JvmOutline.Source.Basic

/-!
# Directories — class files laid out by package

A directory of class files holds the class `a.b.C` in the file `a/b/C.class`.  `Directory.pathOf`
finds the path in three steps: the dots of the name become slashes, the result is appended to the
root (`Path.join`), and the extension is set (`Path.withExtension`).

A path is text, cut into segments by slashes.  An absolute second path replaces the first when two
are joined.  An extension is set on the last segment that names something; empty segments and
segments of one dot behind it are dropped.  A path whose last such segment is the parent directory,
and a path without any, stays as it is.
-/

namespace JvmOutline

namespace Path

/-- The parts between slashes; there is at least one. -/
def segments : List Char → List (List Char)
  | [] => [[]]
  | c :: cs =>
    match segments cs with
    | [] => [[c]]
    | s :: rest => if c = '/' then [] :: s :: rest else (c :: s) :: rest

/-- A path followed by another one; an absolute one replaces it. -/
def join (base path : List Char) : List Char :=
  if path.head? = some '/' then path
  else if base = [] ∨ base.getLast? = some '/' then base ++ path
  else base ++ '/' :: path

/-- A segment that names nothing: it is empty, or the directory itself. -/
def isBlank (segment : List Char) : Bool := segment = [] ∨ segment = ['.']

/-- The part of a file name before its last dot; a dot at the front separates nothing. -/
def stem (name : List Char) : List Char :=
  match name.reverse.dropWhile (· ≠ '.') with
  | [] => name
  | [_] => name
  | _ :: before => before.reverse

/-- A path whose file name has the given extension instead of its own. -/
def withExtension (path extension : List Char) : List Char :=
  match (segments path).reverse.dropWhile isBlank with
  | [] => path
  | name :: before =>
    if name = ['.', '.'] then path
    else ['/'].intercalate ((stem name :: before).reverse) ++ '.' :: extension

end Path

/-- A directory of class files. -/
structure Directory where
  root : String

namespace Directory

/-- A dot of a class name separates directories. -/
def separated (c : Char) : Char := if c = '.' then '/' else c

/-- The path of the class file of a class, whose name may be qualified or internal. -/
def pathOf (d : Directory) (name : String) : String :=
  String.ofList (Path.withExtension (Path.join d.root.toList (name.toList.map separated))
    "class".toList)

/-- The reason why a file that is not there cannot be read. -/
def absent : String := "No such file or directory (os error 2)"

/-- The classes of a directory, whose files are answered by their paths. -/
def source (d : Directory) (files : Source String) : Source String := fun name =>
  files (d.pathOf name)

end Directory

end JvmOutline
