import CoinScript.Error
/-!
# A directory of text files

Files are named by paths that start in the directory. A path may climb out of it and
come back by the directory's own name; of what lies around, nothing is there but
what was written by such a path. Paths are followed part by part, so a path through
something that is missing leads nowhere even if it comes back.
-/

namespace CoinScript

/-- The place of a file. -/
structure FilePlace where
  /-- How many levels above the directory the file stands. -/
  level : Nat
  name : List Char
deriving DecidableEq, Repr

/-- What a path leads to. -/
inductive PathTarget where
  | directory
  /-- A file, which may be missing. -/
  | file (place : FilePlace)
deriving DecidableEq, Repr

/-- A directory and the files that can be reached from it. -/
structure Directory where
  name : String
  files : List (FilePlace × String) := []

namespace Directory

/-- The longest name of a file, in bytes. -/
def maxNameSize : Nat := 255

/-- The longest path, in bytes. -/
def maxPathSize : Nat := 4095

/-- The parts of a path, between its slashes. -/
def parts : List Char → List (List Char)
  | [] => [[]]
  | c :: rest =>
    if c = '/' then [] :: parts rest
    else
      match parts rest with
      | [] => [[c]]
      | part :: more => (c :: part) :: more

/-- Follow parts from a level. A path that ends with a slash can only mean a directory. -/
def walk (dir : Directory) : Nat → List (List Char) → Except FileFault PathTarget
  | _, [] => .ok .directory
  | level, part :: rest =>
    if part = [] ∨ part = ['.'] then walk dir level rest
    else if part = ['.', '.'] then walk dir (level + 1) rest
    else if Hex.byteLength part > maxNameSize then .error .nameTooLong
    else if level = 1 ∧ part = dir.name.toList then walk dir 0 rest
    else if rest = [] then .ok (.file ⟨level, part⟩)
    else if rest.all List.isEmpty then .ok .directory
    else if (dir.files.lookup ⟨level, part⟩).isSome then .error .notDirectory
    else .error .notFound

/-- What a path leads to. Paths from the root of the file system lead nowhere. -/
def resolve (dir : Directory) (path : String) : Except FileFault PathTarget :=
  let path := path.toList
  if path.any (fun c => c.toNat == 0) then .error .nulByte
  else if Hex.byteLength path > maxPathSize then .error .nameTooLong
  else if path.head? = some '/' then .error .notFound
  else walk dir 0 (parts path)

/-- The text of a file. -/
def text? (dir : Directory) (path : String) : Option String :=
  match dir.resolve path with
  | .ok (.file place) => dir.files.lookup place
  | _ => none

/-- The directory without the file at a place. -/
def eraseAt (dir : Directory) (place : FilePlace) : Directory :=
  { dir with files := dir.files.filter fun entry => entry.1 != place }

/-- The directory with a file written. -/
def write (dir : Directory) (path text : String) : Except FileFault Directory :=
  match dir.resolve path with
  | .ok (.file place) => .ok { dir with files := (place, text) :: (dir.eraseAt place).files }
  | .ok .directory => .error .isDirectory
  | .error fault => .error fault

/-- The directory without a file. -/
def erase (dir : Directory) (path : String) : Directory :=
  match dir.resolve path with
  | .ok (.file place) => dir.eraseAt place
  | _ => dir

end Directory

end CoinScript
