import ApiDescription.Configuration.Basic
import ApiDescription.NameMap

/-!
# Directories as values

A directory with text files, some of them in directories below it, and how a path leads to them from
there. What lies above the directory is not known: its directories exist, and nothing else does.
-/

namespace ApiDescription.CommandLine

/-- The text files of a directory, by their paths from it. -/
structure Directory where
  files : NameMap String := ∅

namespace Directory

/-- What a path leads to. Paths inside the directory are lists of names. -/
inductive Place where
  /-- A directory above the one in question. -/
  | above (levels : Nat)
  | folder (path : List String)
  | file (path : List String)
  /-- A name that is free in an existing directory. -/
  | free (path : List String)

/-- The names between the slashes of a path. -/
def split (path : List Char) : List (List Char) :=
  path.foldr (fun c parts =>
    match parts with
    | [] => [[c]]
    | part :: rest => if c = '/' then [] :: part :: rest else (c :: part) :: rest) [[]]

/-- The path of a list of names. -/
def join (path : List String) : String :=
  String.intercalate "/" path

/-- Whether a list of names leads to a directory with files in or below it. -/
def isFolder (dir : Directory) (path : List String) : Bool :=
  dir.files.keys.any fun file => ((join path).toList ++ ['/']).isPrefixOf file.toList

/-- Follows one name of a path. -/
def step (dir : Directory) (place : Place) (name : String) : Except ReadFailure Place :=
  match place with
  | .file _ => .error .notDirectory
  | .free _ => .error .absent
  | .above levels =>
    if name = "" ∨ name = "." then .ok (.above levels)
    else if name = ".." then .ok (.above (levels + 1))
    else .error (if name.utf8ByteSize > 255 then .nameTooLong else .absent)
  | .folder path =>
    if name = "" ∨ name = "." then .ok (.folder path)
    else if name = ".." then
      .ok (if path = [] then .above 1 else .folder path.dropLast)
    else if name.utf8ByteSize > 255 then .error .nameTooLong
    else
      let next := path ++ [name]
      .ok (if dir.files.contains (join next) then .file next
        else if dir.isFolder next then .folder next
        else .free next)

/-- What a path leads to. -/
def locate (dir : Directory) (path : String) : Except ReadFailure Place :=
  if path.toList.contains '\x00' then .error .nulInName
  else if path = "" then .error .absent
  else if path.utf8ByteSize ≥ 4096 then .error .nameTooLong
  else
    let start : Place := if path.toList.head? = some '/' then .above 0 else .folder []
    (split path.toList).foldlM (fun place name => dir.step place (String.ofList name)) start

/-- The text of the file that a path leads to. -/
def read (dir : Directory) (path : String) : Except ReadFailure String := do
  match ← dir.locate path with
  | .file names =>
    match dir.files[join names]? with
    | some text => .ok text
    | none => .error .absent
  | .folder _ | .above _ => .error .isDirectory
  | .free _ => .error .absent

/-- The directory with the text written to the file that a path leads to, if it can be. -/
def write? (dir : Directory) (path text : String) : Option Directory :=
  match dir.locate path with
  | .ok (.file names) | .ok (.free names) => some ⟨dir.files.insert (join names) text⟩
  | _ => none

end Directory

end ApiDescription.CommandLine
