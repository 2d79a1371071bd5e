/-!
# Why a file could not be read
-/

namespace Recognizer.Files

/-- The kinds of failure that are told apart. -/
inductive ReadError.Kind where
  | notFound
  | permissionDenied
  /-- The bytes are not the UTF-8 form of a text. -/
  | invalidData
  | other
  deriving DecidableEq

/-- A failure to read a file, with the words of the system. -/
structure ReadError where
  kind : ReadError.Kind
  text : String
  deriving DecidableEq

namespace ReadError

/-- No file has the path. -/
def noSuchFile : ReadError :=
  ⟨.notFound, "No such file or directory (os error 2)"⟩

/-- The path goes on below a file. -/
def notADirectory : ReadError :=
  ⟨.other, "Not a directory (os error 20)"⟩

/-- The path leads to a directory. -/
def isADirectory : ReadError :=
  ⟨.other, "Is a directory (os error 21)"⟩

/-- The path or one of its names has too many bytes. -/
def nameTooLong : ReadError :=
  ⟨.other, "File name too long (os error 36)"⟩

/-- The path has a NUL character in it. -/
def nulInPath : ReadError :=
  ⟨.other, "file name contained an unexpected NUL byte"⟩

/-- The bytes of the file are not the UTF-8 form of a text. -/
def invalidUtf8 : ReadError :=
  ⟨.invalidData, "stream did not contain valid UTF-8"⟩

end ReadError

end Recognizer.Files
