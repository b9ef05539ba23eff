/-
Program files: why one cannot be read, and what a path leads to. A path is followed name by name
from the working directory, or from the root of the file system if it begins with a slash. Only
files lead to content, and a file is the end of its path.
-/

namespace SlotVM

/-- Why a program file cannot be read. -/
inductive ReadError
  | notFound
  | notDirectory
  | isDirectory
  | nameTooLong
  | notText
  | system (message : String)
deriving DecidableEq, Repr

/-- The message for an unreadable file. -/
def ReadError.message : ReadError → String
  | .notFound => "No such file or directory (os error 2)"
  | .notDirectory => "Not a directory (os error 20)"
  | .isDirectory => "Is a directory (os error 21)"
  | .nameTooLong => "File name too long (os error 36)"
  | .notText => "stream did not contain valid UTF-8"
  | .system message => message

/-- The text of a file, which must be UTF-8. -/
def textOfBytes (bytes : ByteArray) : Except ReadError String :=
  match String.fromUTF8? bytes with
  | some text => .ok text
  | none => .error .notText

/-! ## Paths -/

/-- The parts of a path between its slashes. An empty part stands for the directory it is in, as a
dot does. -/
def pathParts (path : String) : List String := path.splitOn "/"

/-- Whether a part of a path leads nowhere else. -/
def staysInPlace (part : String) : Bool := part.isEmpty || part == "."

/-- The most bytes that a name in a directory can have. -/
def longestName : Nat := 255

/-- The most bytes that a path can have. -/
def longestPath : Nat := 4095

/-- The files below a working directory, each with the names that lead to it. -/
structure Directory where
  files : List (List String × ByteArray)

namespace Directory

/-- The directory with files at the given paths; the last of equal paths wins. -/
def ofFiles (files : List (String × ByteArray)) : Directory :=
  ⟨files.reverse.map fun (path, bytes) => ((pathParts path).filter (!staysInPlace ·), bytes)⟩

/-- Whether the names lead to a directory, which is one that has files below it or the working
directory itself. -/
def contains (d : Directory) (names : List String) : Bool :=
  names.isEmpty || d.files.any fun f => names.isPrefixOf f.1 && names.length < f.1.length

/-- Follows the parts of a path. The place reached so far is given by its names, or is `none` if it
lies above the working directory, where no files are known. -/
def follow (d : Directory) (place : Option (List String)) :
    (parts : List String) → Except ReadError ByteArray
  | [] => .error .isDirectory
  | part :: rest =>
    if staysInPlace part then d.follow place rest
    else if part = ".." then
      d.follow (place.bind fun names => if names.isEmpty then none else some names.dropLast) rest
    else if longestName < part.utf8ByteSize then .error .nameTooLong
    else match place with
      | none => .error .notFound
      | some names =>
        match d.files.lookup (names ++ [part]) with
        | some bytes => if rest.isEmpty then .ok bytes else .error .notDirectory
        | none =>
          if d.contains (names ++ [part]) then d.follow (some (names ++ [part])) rest
          else .error .notFound

/-- The content of the file that a path leads to. -/
def read (d : Directory) (path : String) : Except ReadError ByteArray :=
  if path.isEmpty then .error .notFound
  else if longestPath < path.utf8ByteSize then .error .nameTooLong
  else d.follow (if path.startsWith "/" then none else some []) (pathParts path)

end Directory

end SlotVM
