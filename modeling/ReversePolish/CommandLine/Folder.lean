import ReversePolish.Source

/-!
# Folders

The files that a path can lead to. A path is walked name by name from the working folder, or from
the root if it begins with a slash. Of the folders outside the working one nothing is known but that
each of them lies in a folder, the root in itself. A folder opens like a file, but reading it fails.
-/

namespace ReversePolish.CommandLine

inductive Entry where
  | file (content : List UInt8)
  | emptyFolder
  deriving DecidableEq

abbrev Folder := List (String × Entry)

inductive OpenFailure where
  | notFound
  | notAFolder
  | nameTooLong
  deriving DecidableEq

def OpenFailure.message : OpenFailure → String
  | notFound => "No such file or directory (os error 2)"
  | notAFolder => "Not a directory (os error 20)"
  | nameTooLong => "File name too long (os error 36)"

def readFolderFailure : String := "Is a directory (os error 21)"

/-- Where a walk along a path has arrived. -/
inductive Place where
  | file (content : List UInt8)
  /-- An empty folder in the working one. -/
  | inner
  | working
  /-- A folder outside the working one. -/
  | outer
  deriving DecidableEq

namespace Place

def ofEntry : Entry → Place
  | .file content => file content
  | .emptyFolder => inner

def parent : Place → Place
  | file _ | inner => working
  | working | outer => outer

def source : Place → Source
  | file content => { bytes := content }
  | inner | working | outer => { bytes := [], failure := some readFolderFailure }

end Place

/-- The most bytes that a name in a path may have. -/
def nameLimit : Nat := 255

def pathLimit : Nat := 4095

namespace Folder

def find (folder : Folder) (place : Place) (name : String) : Except OpenFailure Place :=
  if nameLimit < name.utf8ByteSize then .error .nameTooLong
  else if place = .working then
    match folder.lookup name with
    | some entry => .ok (.ofEntry entry)
    | none => .error .notFound
  else .error .notFound

/-- One name further along a path. An empty name and a dot stay where they are, and two dots lead to
the folder around, but all of them only from a folder. -/
def step (folder : Folder) (place : Place) (name : String) : Except OpenFailure Place :=
  match place with
  | .file _ => .error .notAFolder
  | _ =>
    if name = "" ∨ name = "." then .ok place
    else if name = ".." then .ok place.parent
    else folder.find place name

def resolve (folder : Folder) (path : String) : Except OpenFailure Place :=
  if pathLimit < path.utf8ByteSize then .error .nameTooLong
  else match path.splitOn "/" with
    | [""] => .error .notFound
    | "" :: names => names.foldlM folder.step .outer
    | names => names.foldlM folder.step .working

def opened (folder : Folder) (path : String) : Except String Source :=
  match folder.resolve path with
  | .ok place => .ok place.source
  | .error failure => .error failure.message

instance : Coe Folder (String → Except String Source) := ⟨opened⟩

end Folder

end ReversePolish.CommandLine
