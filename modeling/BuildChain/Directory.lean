import BuildChain.Text.Split

/-!
# Files and folders

A directory is a tree of files and folders, given by what is found at each place. A path leads to a
place step by step: each step needs a folder to start from, and two dots lead back. Writing needs a
folder to write into and changes no place but the one that is written to.

A path is looked at as a whole before its first step: it must not be empty, hold no zero character
and not be too long.
-/

namespace BuildChain

/-! ## What can go wrong -/

inductive FileError
  | notFound
  | notFolder
  | isFolder
  | nameTooLong
  /-- The path holds a character that no name can have. -/
  | badName
  /-- The bytes of a file are no text. -/
  | notText
deriving DecidableEq

namespace FileError

def message : FileError → String
  | notFound => "No such file or directory (os error 2)"
  | notFolder => "Not a directory (os error 20)"
  | isFolder => "Is a directory (os error 21)"
  | nameTooLong => "File name too long (os error 36)"
  | badName => "file name contained an unexpected NUL byte"
  | notText => "stream did not contain valid UTF-8"

end FileError

/-! ## Directories -/

inductive Node
  | file (bytes : ByteArray)
  | folder

/-- The names on the way to a file or folder. -/
abbrev Place := List String

structure Directory where
  nodes : List (Place × Node)

namespace Directory

/-- A directory in which relative paths start and nothing is found. -/
def empty : Directory := ⟨[([], .folder)]⟩

def node? (d : Directory) (p : Place) : Option Node := d.nodes.lookup p

def put (d : Directory) (p : Place) (n : Node) : Directory :=
  ⟨(d.nodes.filter fun e => e.1 != p) ++ [(p, n)]⟩

def remove (d : Directory) (p : Place) : Directory := ⟨d.nodes.filter fun e => e.1 != p⟩

/-! ## Paths -/

def maxName : Nat := 255

def maxPath : Nat := 4095

/-- One step from a place. -/
def step (d : Directory) (p : Place) (name : String) : Except FileError Place :=
  match d.node? p with
  | none => .error .notFound
  | some (.file _) => .error .notFolder
  | some .folder =>
    if maxName < name.utf8ByteSize then .error .nameTooLong
    else if name = "." then .ok p
    else if name = ".." && !p.isEmpty then .ok p.dropLast
    else .ok (p ++ [name])

/-- The names in a path; a path that starts at the root has the root for its first name. -/
def names (path : String) : List String :=
  let parts := ((Text.pieces '/' path.toList).filter fun n => !n.isEmpty).map String.ofList
  if path.toList.head? = some '/' then "/" :: parts else parts

/-- Whether a path can lead to a folder only. -/
def asksForFolder (path : String) : Bool :=
  match (Text.pieces '/' path.toList).getLast? with
  | some last => last.isEmpty || last == ['.'] || last == ['.', '.']
  | none => true

/-- The steps of a path that can be a path at all. -/
def steps (path : String) : Except FileError (List String) :=
  if path.isEmpty then .error .notFound
  else if path.toList.any fun c => c.toNat == 0 then .error .badName
  else if maxPath < path.utf8ByteSize then .error .nameTooLong
  else .ok (names path)

/-- The place a path leads to, where nothing need be. -/
def locate (d : Directory) (path : String) : Except FileError Place := do
  (← steps path).foldlM d.step []

/-! ## Reading -/

/-- What a path leads to. -/
def find (d : Directory) (path : String) : Except FileError Node := do
  let p ← d.locate path
  match d.node? p with
  | none => .error .notFound
  | some (.file bytes) => if asksForFolder path then .error .notFolder else .ok (.file bytes)
  | some .folder => .ok .folder

def has (d : Directory) (path : String) : Bool :=
  match d.find path with
  | .ok _ => true
  | .error _ => false

def folderSize : Nat := 4096

def size (d : Directory) (path : String) : Except FileError Nat := do
  match ← d.find path with
  | .file bytes => .ok bytes.size
  | .folder => .ok folderSize

def read (d : Directory) (path : String) : Except FileError ByteArray := do
  match ← d.find path with
  | .file bytes => .ok bytes
  | .folder => .error .isFolder

def readText (d : Directory) (path : String) : Except FileError String := do
  match String.fromUTF8? (← d.read path) with
  | some text => .ok text
  | none => .error .notText

/-! ## Writing -/

/-- A path that asks for a folder is refused once the way to its last step is found, whatever stands
at its end. -/
def write (d : Directory) (path : String) (bytes : ByteArray) : Except FileError Directory := do
  if asksForFolder path then
    let p ← (← steps path).dropLast.foldlM d.step []
    let _ ← d.step p "."
    .error .isFolder
  else
    let p ← d.locate path
    match d.node? p with
    | some .folder => .error .isFolder
    | some (.file _) | none => .ok (d.put p (.file bytes))

def writeText (d : Directory) (path text : String) : Except FileError Directory :=
  d.write path text.toUTF8

end Directory

end BuildChain
