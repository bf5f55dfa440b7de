/-!
# Files

A tree of directories and files, and what opening a path in it comes to: one way to read files by
their names (`Files.reader`). A path is taken step by
step from the working directory: every step but the last has to lead to a directory. Paths that
leave the tree lead to directories in which nothing is found. A tree is put together with
`Files.addDirectory` and `Files.addFile`, which also make the directories on the way.
-/

namespace SplatLisp

/-- Why a file cannot be read. -/
inductive FileError where
  | notFound
  | notDirectory
  | isDirectory
  | nameTooLong
  /-- The path contains a NUL character. -/
  | nulInName
deriving DecidableEq, Inhabited

/-- The failure in the words of the operating system. -/
def FileError.message : FileError → String
  | notFound => "No such file or directory (os error 2)"
  | notDirectory => "Not a directory (os error 20)"
  | isDirectory => "Is a directory (os error 21)"
  | nameTooLong => "File name too long (os error 36)"
  | nulInName => "file name contained an unexpected NUL byte"

/-- Something that a path leads to. -/
inductive FileEntry where
  | directory
  | file (bytes : ByteArray)
deriving Inhabited

/-- Directories and files by their paths from the working directory, which itself is the empty
path. -/
structure Files where
  entries : List (List String × FileEntry)
deriving Inhabited

/-- A place that a path has led to so far. -/
inductive FilePlace where
  /-- A path from the working directory, innermost name first. -/
  | inside (path : List String) (entry : FileEntry)
  /-- A directory that is not in the tree. -/
  | outside

namespace Files

/-- The longest name of a file, in bytes. -/
def nameLimit : Nat := 255

/-- The longest path, in bytes. -/
def pathLimit : Nat := 4095

def steps (path : String) : List String := path.splitOn "/"

def empty : Files := ⟨[]⟩

/-- What a path from the working directory, innermost name first, leads to. -/
def entry? (files : Files) (path : List String) : Option FileEntry :=
  match path with
  | [] => some .directory
  | _ => files.entries.lookup path

/-- The tree with one more entry, in place of what the path led to. -/
def put (files : Files) (path : List String) (entry : FileEntry) : Files :=
  ⟨(path, entry) :: files.entries⟩

/-- Takes one step from a directory to a directory, which is made if there is nothing; none if the
step leads to a file or out of the tree. -/
def enter (place : Files × List String) (name : String) : Option (Files × List String) :=
  let (files, path) := place
  if name = "" ∨ name = "." then some place
  else if name = ".." then
    match path with
    | [] => none
    | _ :: outer => some (files, outer)
  else
    match files.entry? (name :: path) with
    | some .directory => some (files, name :: path)
    | some (.file _) => none
    | none => some (files.put (name :: path) .directory, name :: path)

/-- The tree with the directories on a path; as it was if they cannot be made. -/
def addDirectory (files : Files) (path : String) : Files :=
  (((steps path).foldlM enter (files, [])).map Prod.fst).getD files

/-- The tree with a file at a path, and with the directories that lead to it; as it was if the file
cannot be made. -/
def addFile (files : Files) (path : String) (bytes : ByteArray) : Files :=
  match (steps path).reverse with
  | [] => files
  | name :: outer =>
    match outer.reverse.foldlM enter (files, []) with
    | none => files
    | some (made, directory) =>
      if name = "" ∨ name = "." ∨ name = ".." then files
      else
        match made.entry? (name :: directory) with
        | some .directory => files
        | _ => made.put (name :: directory) (.file bytes)

/-- Takes one step from a place. -/
def step (files : Files) (place : FilePlace) (name : String) : Except FileError FilePlace :=
  match place with
  | .inside _ (.file _) => .error .notDirectory
  | .outside =>
    if name = "" ∨ name = "." ∨ name = ".." then .ok .outside
    else if nameLimit < name.utf8ByteSize then .error .nameTooLong
    else .error .notFound
  | .inside path .directory =>
    if name = "" ∨ name = "." then .ok place
    else if name = ".." then
      match path with
      | [] => .ok .outside
      | _ :: outer => .ok (.inside outer .directory)
    else if nameLimit < name.utf8ByteSize then .error .nameTooLong
    else
      match files.entry? (name :: path) with
      | some entry => .ok (.inside (name :: path) entry)
      | none => .error .notFound

/-- Reads the file that a path leads to. -/
def read (files : Files) (path : String) : Except FileError ByteArray :=
  if path.contains '\x00' then .error .nulInName
  else if path = "" then .error .notFound
  else if pathLimit < path.utf8ByteSize then .error .nameTooLong
  else
    let start : FilePlace := if path.startsWith "/" then .outside else .inside [] .directory
    match (steps path).foldlM files.step start with
    | .error failure => .error failure
    | .ok (.inside _ (.file bytes)) => .ok bytes
    | .ok _ => .error .isDirectory

/-- Reads the file that a path leads to, or tells in words why it cannot be read. -/
def reader (files : Files) (path : String) : Except String ByteArray :=
  (files.read path).mapError FileError.message

end Files

end SplatLisp
