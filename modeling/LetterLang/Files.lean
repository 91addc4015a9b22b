/-!
# Files

Why a file cannot be read as text, and a directory of named files in which a path can be looked
up: a pure stand-in for a file system, with the faults that a file system reports.
-/

namespace LetterLang

inductive ReadFault where
  | notFound
  | notDirectory
  | isDirectory
  | nameTooLong
  | nameWithNul
  | notText
  | other (message : String)
deriving DecidableEq, Repr

def ReadFault.message : ReadFault → String
  | .notFound => "No such file or directory (os error 2)"
  | .notDirectory => "Not a directory (os error 20)"
  | .isDirectory => "Is a directory (os error 21)"
  | .nameTooLong => "File name too long (os error 36)"
  | .nameWithNul => "file name contained an unexpected NUL byte"
  | .notText => "stream did not contain valid UTF-8"
  | .other message => message

/-- Bytes as text, if they are UTF-8. -/
def decodeText (bytes : ByteArray) : Except ReadFault String :=
  match String.fromUTF8? bytes with
  | some text => .ok text
  | none => .error .notText

inductive FileEntry where
  | directory
  | file (content : ByteArray)

/-- A directory: the paths in it, relative to it, and what they name. -/
structure Directory where
  entries : List (String × FileEntry)

namespace Directory

/-- The entry that a sequence of names leads to, the directory itself if there are none. A path
that leads up and out of the directory stays in directories as long as it only leads up. -/
def entry? (d : Directory) (names : List String) : Option FileEntry :=
  if names.all (· = "..") then some .directory
  else
    let path := "/".intercalate names
    match d.entries.lookup path with
    | some entry => some entry
    | none =>
      if d.entries.any fun (name, _) => (path ++ "/").toList.isPrefixOf name.toList then
        some .directory
      else none

/-- One name further: up for two points, nowhere for one point or none. -/
def step (names : List String) (name : String) : List String :=
  if name = "" ∨ name = "." then names
  else if name = ".." ∧ names.getLast?.any (· ≠ "..") then names.dropLast
  else names ++ [name]

def nameLimit : Nat :=
  255

def pathLimit : Nat :=
  4095

/-- Follows the names of a path from the place `names`. Only a directory leads further. -/
def walk (d : Directory) (names : List String) : List String → Except ReadFault FileEntry
  | [] =>
    match d.entry? names with
    | some entry => .ok entry
    | none => .error .notFound
  | name :: rest =>
    match d.entry? names with
    | some .directory =>
      if nameLimit < name.utf8ByteSize then .error .nameTooLong
      else d.walk (step names name) rest
    | some (.file _) => .error .notDirectory
    | none => .error .notFound

/-- The text of the file at a path. A path from the root of the file system leads to no file of the
directory. -/
def read (d : Directory) (path : String) : Except ReadFault String := do
  if path.toList.contains '\x00' then throw .nameWithNul
  if path.isEmpty then throw .notFound
  if pathLimit < path.utf8ByteSize then throw .nameTooLong
  match path.splitOn "/" with
  | "" :: names => throw (if names.all (·.isEmpty) then .isDirectory else .notFound)
  | names =>
    match ← d.walk [] names with
    | .directory => throw .isDirectory
    | .file content => decodeText content

end Directory

end LetterLang
