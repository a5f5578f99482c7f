/-!
# File trees

A file tree is a working directory as a value: the files in it, each at the list of names that
leads to it. A directory is there if a file is in it, and the working directory is always there.

Files are read and written by *paths*: names with slashes between them. An empty name and `.` stay
where they are, `..` goes up, and any other name must lead to a directory unless it is the last
one. Above the working directory there are directories, but nothing in them is known. A path with a
slash at its end means a directory.

`FileTree.read` and `FileTree.write` fail as a file system does, with a `FileFault`; a write that
fails changes nothing.
-/

namespace StructuralModel

/-- Why a file cannot be read or written. -/
inductive FileFault where
  /-- There is nothing at the path, or no directory that leads to it. -/
  | notFound
  /-- A name that should lead to a directory leads to a file. -/
  | notADirectory
  /-- There is a directory where a file should be. -/
  | isADirectory
  /-- A name or the whole path has too many bytes. -/
  | nameTooLong
  /-- The path holds a character that no name may hold. -/
  | invalidPath
  /-- The bytes of the file are no UTF-8 text. -/
  | notText
  /-- Any other reason, in the words of the system. -/
  | other (reason : String)
  deriving DecidableEq, Repr

/-- The fault in words. -/
def FileFault.message : FileFault → String
  | notFound => "No such file or directory (os error 2)"
  | notADirectory => "Not a directory (os error 20)"
  | isADirectory => "Is a directory (os error 21)"
  | nameTooLong => "File name too long (os error 36)"
  | invalidPath => "file name contained an unexpected NUL byte"
  | notText => "stream did not contain valid UTF-8"
  | other reason => reason

/-- A working directory with its files. -/
structure FileTree where
  /-- The files: the names that lead to each, and its bytes. -/
  files : List (List String × ByteArray) := []

namespace FileTree

/-- The bytes of the file at `place`. -/
def file? (place : List String) (t : FileTree) : Option ByteArray :=
  t.files.lookup place

/-- Whether there is a directory at `place`. -/
def isDirectory (place : List String) (t : FileTree) : Bool :=
  place.isEmpty || t.files.any fun (names, _) => place.isPrefixOf names && place != names

/-- Puts a file at `place`, over the one that is there. -/
def put (place : List String) (bytes : ByteArray) (t : FileTree) : FileTree :=
  if t.files.any (·.1 == place) then
    ⟨t.files.map fun (names, old) => (names, if names == place then bytes else old)⟩
  else ⟨t.files ++ [(place, bytes)]⟩

/-! ## Paths -/

/-- A directory that a path leads to: in the tree, at a list of names, or above it. -/
abbrev Directory := Option (List String)

/-- The number of bytes that a name may have. -/
def nameLimit : Nat := 255

/-- The number of bytes that a path may have. -/
def pathLimit : Nat := 4095

/-- The directory above a directory. -/
def parent : Directory → Directory
  | none | some [] => none
  | some place => some place.dropLast

/-- The place of a name in a directory, whether there is anything or not. -/
def child (dir : Directory) (name : String) : Except FileFault (List String) :=
  if name.utf8ByteSize > nameLimit then .error .nameTooLong
  else
    match dir with
    | none => .error .notFound
    | some place => .ok (place ++ [name])

/-- What a name leads to from a directory, if it is a directory again. -/
def enter (t : FileTree) (dir : Directory) (name : String) : Except FileFault Directory :=
  if name = "" ∨ name = "." then .ok dir
  else if name = ".." then .ok (parent dir)
  else do
    let place ← child dir name
    if t.isDirectory place then return some place
    else if (t.file? place).isSome then throw .notADirectory
    else throw .notFound

/-- The directory that names lead to. -/
def follow (t : FileTree) (dir : Directory) (names : List String) : Except FileFault Directory :=
  names.foldlM t.enter dir

/-- The names of a path, and the directory that it starts from. A path that starts with a slash
    starts above the tree. -/
def names (path : String) : Directory × List String :=
  (if path.startsWith "/" then none else some [], path.splitOn "/")

/-- The names up to the last one that is not empty, and that one: a slash at the end of a path
    belongs to no name. -/
def lastName (names : List String) : List String × Option String :=
  let names := (names.reverse.dropWhile (· == "")).reverse
  (names.dropLast, names.getLast?)

/-- Whether a path can be followed at all. -/
def checkPath (path : String) : Except FileFault Unit :=
  if path.toList.contains '\x00' then .error .invalidPath
  else if path = "" then .error .notFound
  else if path.utf8ByteSize > pathLimit then .error .nameTooLong
  else .ok ()

/-- Whether a path can only mean a directory because it ends with a slash. -/
def isDirectoryPath (path : String) : Bool :=
  path.endsWith "/"

/-- Follows a path up to its last name: the directory and the name in it, or nothing if the path
    has no last name, and so is a directory itself. -/
def resolve (t : FileTree) (path : String) : Except FileFault (Option (Directory × String)) := do
  checkPath path
  let (start, names) := names path
  let (before, last) := lastName names
  let dir ← t.follow start before
  match last with
  | none | some "." | some ".." => return none
  | some name => return some (dir, name)

/-- The place of the file with a name in a directory, whether there is one or not. -/
def place (t : FileTree) (dir : Directory) (name : String) : Except FileFault (List String) := do
  let place ← child dir name
  if t.isDirectory place then throw .isADirectory
  else return place

/-! ## Reading and writing -/

/-- The bytes of the file at a path. -/
def read (path : String) (t : FileTree) : Except FileFault ByteArray := do
  match ← t.resolve path with
  | none => throw .isADirectory
  | some (dir, name) =>
    match t.file? (← t.place dir name) with
    | none => throw .notFound
    | some bytes => if isDirectoryPath path then throw .notADirectory else return bytes

/-- Whether there is a file or a directory at a path. -/
def exists? (path : String) (t : FileTree) : Bool :=
  match t.read path with
  | .ok _ | .error .isADirectory => true
  | .error _ => false

/-- The tree with the bytes of the file at a path replaced, or with a new file there. -/
def write (path : String) (bytes : ByteArray) (t : FileTree) : Except FileFault FileTree := do
  match ← t.resolve path with
  | none => throw .isADirectory
  | some (dir, name) =>
    -- No file is made at the path of a directory, whatever its name is.
    if isDirectoryPath path then throw .isADirectory
    else return t.put (← t.place dir name) bytes

end FileTree

end StructuralModel
