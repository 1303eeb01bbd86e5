import DialogueScript.Text.Basic

/-!
The files that the program can read. A path is followed part by part from the folder in which the
program runs. What lies outside that folder is not known, except that it has no files for us.
-/

namespace DialogueScript.CommandLine

/-- Why there is no text at a path. -/
inductive ReadError where
  | notFound
  | notText
  | isFolder
  /-- A file was used as if it were a folder. -/
  | notFolder
  | nameTooLong
deriving DecidableEq, Repr

def ReadError.cause : ReadError → String
  | .notFound => "No such file or directory (os error 2)"
  | .notText => "stream did not contain valid UTF-8"
  | .isFolder => "Is a directory (os error 21)"
  | .notFolder => "Not a directory (os error 20)"
  | .nameTooLong => "File name too long (os error 36)"

/-- The text that some bytes encode. -/
def decodeText (bytes : ByteArray) : Except ReadError Text :=
  match String.fromUTF8? bytes with
  | some s => .ok s.toList
  | none => .error .notText

/-- The parts of a path. -/
def pathParts (path : String) : List String :=
  (path.toList.splitOn '/').map String.ofList

/-- A folder in which the program runs. -/
structure Folder where
  /-- The files in it and in the folders below it, each by the parts of its path. -/
  files : List (List String × ByteArray)

/-- Where a path has led to. -/
inductive Place where
  /-- The folder itself or one below it. -/
  | folder (parts : List String)
  | file (bytes : ByteArray)
  /-- A folder that is not below ours. -/
  | outside

namespace Folder

/-- The greatest number of bytes in a part of a path. -/
def maxPart : Nat := 255

/-- The greatest number of bytes in a path. -/
def maxPath : Nat := 4095

/-- The file or folder with a name. -/
def named (f : Folder) (parts : List String) (name : String) : Except ReadError Place :=
  let parts := parts ++ [name]
  match f.files.lookup parts with
  | some bytes => .ok (.file bytes)
  | none =>
    if f.files.any fun (path, _) => parts.isPrefixOf path then .ok (.folder parts)
    else .error .notFound

/-- Follows one part of a path. -/
def enter (f : Folder) (place : Place) (part : String) : Except ReadError Place :=
  match place with
  | .file _ => .error .notFolder
  | .folder parts =>
    if part = "" || part = "." then .ok place
    else if part = ".." then .ok (if parts.isEmpty then .outside else .folder parts.dropLast)
    else if maxPart < part.utf8ByteSize then .error .nameTooLong
    else f.named parts part
  | .outside =>
    if part = "" || part = "." || part = ".." then .ok .outside
    else if maxPart < part.utf8ByteSize then .error .nameTooLong
    else .error .notFound

/-- Follows a path. -/
def find (f : Folder) (path : String) : Except ReadError Place :=
  if path.isEmpty then .error .notFound
  else if maxPath < path.utf8ByteSize then .error .nameTooLong
  else
    let start := if path.toList.head? = some '/' then Place.outside else .folder []
    (pathParts path).foldlM f.enter start

/-- The text of the file at a path. -/
def read (f : Folder) (path : String) : Except ReadError Text := do
  match ← f.find path with
  | .file bytes => decodeText bytes
  | .folder _ | .outside => .error .isFolder

end Folder

end DialogueScript.CommandLine
