namespace ShardCompaction

inductive ReadFailure where
  | notFound
  | notDirectory
  | isDirectory
  | nameTooLong
  | zeroInName
  | invalidText
  | other (reason : String)
  deriving DecidableEq

def ReadFailure.message : ReadFailure → String
  | notFound => "No such file or directory (os error 2)"
  | notDirectory => "Not a directory (os error 20)"
  | isDirectory => "Is a directory (os error 21)"
  | nameTooLong => "File name too long (os error 36)"
  | zeroInName => "file name contained an unexpected NUL byte"
  | invalidText => "stream did not contain valid UTF-8"
  | other reason => reason

/-- What reading the file at each path gives. -/
abbrev FileTexts := String → Except ReadFailure String

/-- The longest name of a file or directory, and the longest path, in bytes. -/
def maxNameBytes : Nat := 255

def maxPathBytes : Nat := 4095

/-- A path that no file can have is refused before it is followed. -/
def checkPath (path : String) : Except ReadFailure Unit :=
  if path.toList.contains (Char.ofNat 0) then .error .zeroInName
  else if maxPathBytes < path.utf8ByteSize then .error .nameTooLong
  else .ok ()

/-- The text of a file's bytes. -/
def textOfBytes (bytes : ByteArray) : Except ReadFailure String :=
  match String.fromUTF8? bytes with
  | some text => .ok text
  | none => .error .invalidText

/-- Files and directories, by the names on the way from the root, and the working directory. What a
listed path passes through is a directory. -/
structure FileTree where
  home : List String
  files : List (List String × ByteArray)
  directories : List (List String)

namespace FileTree

/-- The names in a path. -/
def names (path : String) : List String := path.splitOn "/"

def file? (t : FileTree) (place : List String) : Option ByteArray := t.files.lookup place

/-- Of a place that is not a file. -/
def isDirectory (t : FileTree) (place : List String) : Bool :=
  (t.home :: t.directories ++ t.files.map Prod.fst).any place.isPrefixOf

/-- Where a name leads. It is followed only from a directory. Empty names and single dots stay where
they are, two dots go up, and stay at the root. -/
def step (t : FileTree) (place : List String) (name : String) : Except ReadFailure (List String) :=
  if (t.file? place).isSome then .error .notDirectory
  else if !t.isDirectory place then .error .notFound
  else if name = "" ∨ name = "." then .ok place
  else if name = ".." then .ok place.dropLast
  else if maxNameBytes < name.utf8ByteSize then .error .nameTooLong
  else .ok (place ++ [name])

/-- A path that begins with a slash is followed from the root, any other from the working
directory. -/
def texts (t : FileTree) : FileTexts := fun path => do
  checkPath path
  let start := if path.startsWith "/" then [] else t.home
  let place ← (names path).foldlM t.step start
  match t.file? place with
  | some bytes => textOfBytes bytes
  | none => throw (if t.isDirectory place then .isDirectory else .notFound)

end FileTree

end ShardCompaction
