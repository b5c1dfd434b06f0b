import Lockstep.Text.Numeral

/-! Why an input could not be opened or read.

Opening and reading fail apart: an input that opened may still break off, and a
compressed one breaks off wherever its bytes stop making sense. A run ends with a
`Failure` only for one of these two reasons. -/
namespace Lockstep

/-- An error of the operating system: its number and what it says. -/
structure SystemError where
  code : Nat
  description : Text
  deriving DecidableEq, Repr

namespace SystemError

def notFound : SystemError := ⟨2, "No such file or directory".toList⟩
def notDirectory : SystemError := ⟨20, "Not a directory".toList⟩
def isDirectory : SystemError := ⟨21, "Is a directory".toList⟩
def nameTooLong : SystemError := ⟨36, "File name too long".toList⟩

def message (error : SystemError) : Text :=
  error.description ++ " (os error ".toList ++ Numeral.decimal error.code ++ ")".toList

end SystemError

inductive OpenError where
  | system (error : SystemError)
  /-- The path holds a NUL character, so no file can have it. -/
  | nulInPath
  deriving DecidableEq, Repr

def OpenError.message : OpenError → Text
  | system error => error.message
  | nulInPath => "file name contained an unexpected NUL byte".toList

inductive ReadError where
  | system (error : SystemError)
  | incompleteFrame
  /-- Compressed data goes on with no frame. -/
  | unknownFrame
  | corrupted
  /-- A frame gives more than there is room for. -/
  | noRoom
  /-- A frame asks for a window past the limit. -/
  | windowTooLarge
  /-- A frame uses a feature that is not read, such as a checksum. -/
  | unsupported
  | dictionaryMismatch
  | versionUnsupported
  /-- A frame of an older version uses a feature that is not read. -/
  | generic
  deriving DecidableEq, Repr

def ReadError.message : ReadError → Text
  | system error => error.message
  | incompleteFrame => "incomplete frame".toList
  | unknownFrame => "Unknown frame descriptor".toList
  | corrupted => "Data corruption detected".toList
  | noRoom => "Destination buffer is too small".toList
  | windowTooLarge => "Frame requires too much memory for decoding".toList
  | unsupported => "Unsupported frame parameter".toList
  | dictionaryMismatch => "Dictionary mismatch".toList
  | versionUnsupported => "Version not supported".toList
  | generic => "Error (generic)".toList

inductive Input where
  | trace
  | listing
  | reference
  deriving DecidableEq, Repr

inductive Failure where
  | opening (input : Input) (path : Text) (cause : OpenError)
  | reading (input : Input) (cause : ReadError)
  deriving DecidableEq, Repr

def Failure.message : Failure → Text
  | opening _ path cause => "Cannot open file ".toList ++ path ++ ": ".toList ++ cause.message
  | reading _ cause => "IO error: ".toList ++ cause.message

end Lockstep
