import Barnamaj.Text.Utf8

/-!
# Files

A working directory as a value (`FileTree`): the files and directories in it, each under the names
that lead to it. A path is followed name by name; every name but the last must lead to a directory.
A file is written in two steps, each of which the system can refuse: it is opened, which leaves it
empty, and then it takes the bytes, all of them or those in front of a fault (`Transfer`).
-/

namespace Barnamaj

/-! ### Faults -/

/-- Why the system refuses to do something. -/
inductive SystemFault where
  | notFound
  | notDirectory
  | isDirectory
  | nameTooLong
  | other (number : Nat) (text : String)
deriving DecidableEq

namespace SystemFault

/-- The number of a fault. -/
def number : SystemFault → Nat
  | .notFound => 2
  | .notDirectory => 20
  | .isDirectory => 21
  | .nameTooLong => 36
  | .other number _ => number

/-- The words for a fault. -/
def words : SystemFault → String
  | .notFound => "No such file or directory"
  | .notDirectory => "Not a directory"
  | .isDirectory => "Is a directory"
  | .nameTooLong => "File name too long"
  | .other _ text => text

/-- The text of a fault that names no path. -/
def bare (f : SystemFault) : String :=
  "[Errno " ++ toString f.number ++ "] " ++ f.words

/-- The text of a fault at a path. -/
def text (f : SystemFault) (path : String) : String :=
  f.bare ++ ": " ++ Text.quoted path

end SystemFault

/-- Why a file has no text. -/
inductive ReadFault where
  | system (f : SystemFault) (path : String)
  | encoding (f : Text.Utf8Fault)
deriving DecidableEq

/-- The text of a fault in reading. -/
def ReadFault.text : ReadFault → String
  | .system f path => f.text path
  | .encoding f => f.text

/-- The source text that the bytes of a file stand for. -/
def sourceOfBytes (bytes : List UInt8) : Except ReadFault String :=
  match Text.decodeUtf8 bytes with
  | .ok cs => .ok (String.ofList (Text.unifyLineEnds cs))
  | .error f => .error (.encoding f)

/-- Why a file is not written as a whole: it cannot be opened, or does not take all bytes. -/
inductive WriteFault where
  | opening (f : SystemFault) (path : String)
  | storing (f : SystemFault)
deriving DecidableEq

/-- The text of a fault in writing. Only the opening knows of a path. -/
def WriteFault.text : WriteFault → String
  | .opening f path => f.text path
  | .storing f => f.bare

/-- What becomes of the bytes that are written to an opened file: all of them are stored, or some
until a fault stops the writing. -/
inductive Transfer where
  | complete
  | stopped (stored : Nat) (f : SystemFault)
deriving DecidableEq

namespace Transfer

/-- The bytes that are stored. -/
def stored (bytes : List UInt8) : Transfer → List UInt8
  | .complete => bytes
  | .stopped n _ => bytes.take n

/-- What is reported about a transfer. -/
def outcome : Transfer → Except WriteFault Unit
  | .complete => .ok ()
  | .stopped _ f => .error (.storing f)

end Transfer

/-! ### Trees -/

/-- A file with its bytes, or a directory. -/
inductive FileEntry where
  | file (bytes : List UInt8)
  | directory
deriving DecidableEq

/-- The names that lead to an entry from the working directory. A path that leaves the working
directory starts with `..` or with `/`. -/
abbrev FileNames := List String

/-- The files and directories below the working directory. -/
structure FileTree where
  entries : List (FileNames × FileEntry) := []

namespace FileTree

variable (t : FileTree)

/-- The greatest number of bytes in a name. -/
def maxName : Nat := 255

/-- The greatest number of bytes in a path. -/
def maxPath : Nat := 4095

/-- The entry under some names. Everything outside of the working directory counts as missing,
except for the directories above it. -/
def entry? (names : FileNames) : Option FileEntry :=
  if names.all (fun n => n == ".." || n == "/") then some .directory else t.entries.lookup names

/-- The names after one more name of a path. -/
def descend (names : FileNames) (name : String) : FileNames :=
  if name = "" ∨ name = "." then names
  else if name = ".." then
    match names.getLast? with
    | none | some ".." => names ++ [".."]
    | some "/" => names
    | some _ => names.dropLast
  else names ++ [name]

/-- Follow the names of a path, each inside what the names before it lead to. -/
def follow (names : FileNames) : List String → Except SystemFault FileNames
  | [] => .ok names
  | name :: rest =>
    match t.entry? names with
    | none => .error .notFound
    | some (.file _) => .error .notDirectory
    | some .directory =>
      if maxName < name.utf8ByteSize then .error .nameTooLong
      else follow (descend names name) rest

/-- Follow the given names of a path from where the path starts. -/
def locate (path : String) (names : List String) : Except SystemFault FileNames :=
  if path = "" then .error .notFound
  else if maxPath < path.utf8ByteSize then .error .nameTooLong
  else t.follow (if path.startsWith "/" then ["/"] else []) names

/-- The bytes of the file at a path. -/
def read (path : String) : Except SystemFault (List UInt8) :=
  match t.locate path (path.splitOn "/") with
  | .error f => .error f
  | .ok names =>
    match t.entry? names with
    | none => .error .notFound
    | some .directory => .error .isDirectory
    | some (.file bytes) => .ok bytes

/-- Put a file under some names, in the place of the one that was there or behind the others. -/
def put (names : FileNames) (bytes : List UInt8) : FileTree :=
  if t.entries.any (·.1 == names) then
    { entries := t.entries.map fun e => if e.1 == names then (names, .file bytes) else e }
  else { entries := t.entries ++ [(names, .file bytes)] }

/-- The names of the file that is opened for writing at a path. A path that ends in a slash asks for
a directory, and is refused as one as soon as the directory around it is found. -/
def place (path : String) : Except SystemFault FileNames :=
  if path.endsWith "/" then
    let names := ((path.splitOn "/").reverse.dropWhile (· == "")).reverse
    match t.locate path (names.dropLast ++ [""]) with
    | .error f => .error f
    | .ok _ => .error .isDirectory
  else
    match t.locate path (path.splitOn "/") with
    | .error f => .error f
    | .ok names => if t.entry? names = some .directory then .error .isDirectory else .ok names

/-- Write a file at a path, in the place of the one that was there or anew. -/
def write (path : String) (bytes : List UInt8) (transfer : Transfer) :
    Except WriteFault Unit × FileTree :=
  match t.place path with
  | .error f => (.error (.opening f path), t)
  | .ok names =>
    let opened := t.put names []
    (transfer.outcome, opened.put names (transfer.stored bytes))

end FileTree

end Barnamaj
