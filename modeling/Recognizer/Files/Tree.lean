import Recognizer.Files.ReadError

/-!
# A tree of files

Files and directories below a working directory, and the way a path leads to them. A path is
followed name by name: every name but the last has to lead to a directory, so has the last one if a
slash or a dot follows it, and two dots lead back up. Of the world outside the working directory
nothing is known but that there are directories above it; all other paths that leave it lead
nowhere.
-/

namespace Recognizer.Files

/-- What is found at a path. -/
inductive Content where
  | file (bytes : ByteArray)
  | directory

/-- Files and directories, by the names that lead to them from the working directory. -/
structure Tree where
  entries : List (List String × Content)

/-- A place that a path has led to. -/
inductive Place where
  /-- Below the working directory, by these names. -/
  | inside (names : List String)
  /-- A directory above the working directory. -/
  | outside
  deriving DecidableEq

/-- The bytes that a name may have. -/
def nameLimit : Nat := 255

/-- The bytes that a path may have. -/
def pathLimit : Nat := 4095

/-- The names in a path. -/
def names (path : String) : List String :=
  path.splitOn "/"

namespace Tree

/-- The working directory alone. -/
def empty : Tree :=
  ⟨[]⟩

/-- What is found by these names. -/
def find? (t : Tree) : List String → Option Content
  | [] => some .directory
  | path => t.entries.lookup path

/-- Put something at a place, instead of what may have been there. -/
def put (t : Tree) (path : List String) (content : Content) : Tree :=
  ⟨(path, content) :: t.entries⟩

/-- Put something at a path, with the directories above it. -/
def add (t : Tree) (path : String) (content : Content) : Tree :=
  let path := (names path).filter fun name => name ≠ "" ∧ name ≠ "."
  let parents := (List.range path.length).map path.take
  (parents.foldl (fun t parent => t.put parent .directory) t).put path content

/-- Follow one name from a place. -/
def enter (t : Tree) (place : Place) (name : String) : Except ReadError Place :=
  match place with
  | .outside =>
    if name = "" ∨ name = "." ∨ name = ".." then .ok .outside
    else if name.utf8ByteSize > nameLimit then .error .nameTooLong
    else .error .noSuchFile
  | .inside path =>
    match t.find? path with
    | none => .error .noSuchFile
    | some (.file _) => .error .notADirectory
    | some .directory =>
      if name = "" ∨ name = "." then .ok place
      else if name = ".." then .ok (if path = [] then .outside else .inside path.dropLast)
      else if name.utf8ByteSize > nameLimit then .error .nameTooLong
      else
        match t.find? (path ++ [name]) with
        | some _ => .ok (.inside (path ++ [name]))
        | none => .error .noSuchFile

/-- The place that a path leads to. -/
def follow (t : Tree) (path : String) : Except ReadError Place :=
  if path.contains '\x00' then .error .nulInPath
  else if path = "" then .error .noSuchFile
  else if path.utf8ByteSize > pathLimit then .error .nameTooLong
  else (names path).foldlM t.enter (if path.startsWith "/" then .outside else .inside [])

/-- The bytes of the file at a path. -/
def readBytes (t : Tree) (path : String) : Except ReadError ByteArray := do
  match ← t.follow path with
  | .outside => .error .isADirectory
  | .inside path =>
    match t.find? path with
    | some (.file bytes) => .ok bytes
    | some .directory => .error .isADirectory
    | none => .error .noSuchFile

end Tree

/-- The text whose UTF-8 form the bytes are. -/
def decode (bytes : ByteArray) : Except ReadError String :=
  match String.fromUTF8? bytes with
  | some text => .ok text
  | none => .error .invalidUtf8

/-- The text of the file at a path. -/
def Tree.readText (t : Tree) (path : String) : Except ReadError String :=
  t.readBytes path >>= decode

end Recognizer.Files
