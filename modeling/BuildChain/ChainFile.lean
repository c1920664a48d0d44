import BuildChain.Chain.OfText
import BuildChain.Directory
import BuildChain.Writer

/-!
# Chain files

A chain file holds the text of a chain. Reading takes files up to a size only; writing replaces the
whole file.
-/

namespace BuildChain

inductive ChainFileError
  | notFound (path : String)
  | unreadable (path : String) (cause : FileError)
  | tooLarge (path : String) (size max : Nat)
  | unwritable (path : String) (cause : FileError)
deriving DecidableEq

namespace ChainFileError

def message : ChainFileError → String
  | notFound path => "chain file not found: " ++ path
  | unreadable path cause => "io error reading " ++ path ++ ": " ++ cause.message
  | tooLarge path size max =>
    "chain file " ++ path ++ " too large: " ++ toString size ++ " bytes (max: " ++
      toString max ++ ")"
  | unwritable path cause => "io error writing " ++ path ++ ": " ++ cause.message

/-- The error and what caused it, in words. -/
def causes (e : ChainFileError) : List String :=
  match e with
  | unreadable _ cause => [e.message, cause.message]
  | unwritable _ cause => [e.message, cause.message]
  | _ => [e.message]

end ChainFileError

namespace ChainFile

/-- The default for the size of the largest file that is read. -/
def maxSize : Nat := 1024 * 1024

/-- Reads a chain file of any size. -/
def readAny (d : Directory) (path : String) : Except ChainFileError Chain :=
  if !d.has path then .error (.notFound path)
  else
    match d.readText path with
    | .ok text => .ok (Chain.ofText text)
    | .error cause => .error (.unreadable path cause)

/-- Reads a chain file that is not larger than `max` bytes. -/
def read (max : Nat) (d : Directory) (path : String) : Except ChainFileError Chain :=
  if !d.has path then .error (.notFound path)
  else
    match d.size path with
    | .error cause => .error (.unreadable path cause)
    | .ok size => if max < size then .error (.tooLarge path size max) else readAny d path

def write (w : Writer) (d : Directory) (path : String) (c : Chain) :
    Except ChainFileError Directory :=
  match d.writeText path (w.render c) with
  | .ok d => .ok d
  | .error cause => .error (.unwritable path cause)

end ChainFile

end BuildChain
