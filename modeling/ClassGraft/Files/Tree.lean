import ClassGraft.Bytes.BigEndian

/-!
# Trees of files

A tree of directories and files, with what can be done with it and why that fails.  Paths lead on
from the top of the tree; there is nothing above it.
-/

/-!
## Paths

A path is a text of names with slashes between them.  Repeated slashes count as one, and a dot
stands for the directory itself.
-/

namespace ClassGraft.Path

/-- A path backwards, without slashes and dots at its end. -/
def trimBack : List Char → List Char
  | '/' :: rest => if rest.isEmpty then ['/'] else trimBack rest
  | '.' :: '/' :: rest => if rest.isEmpty then ['/'] else trimBack rest
  | path => path

/-- The last name of a path, unless that is the directory itself or the one above. -/
def fileName? (path : String) : Option String :=
  let name := String.ofList ((trimBack path.toList.reverse).takeWhile (· != '/')).reverse
  if ["", ".", ".."].contains name then none else some name

/-- The path of the directory that holds what a path leads to. -/
def parent? (path : String) : Option String :=
  let path := trimBack path.toList.reverse
  if path.isEmpty || path == ['/'] then none
  else some (String.ofList (trimBack (path.dropWhile (· != '/'))).reverse)

/-- What follows the last dot in the last name of a path, unless the name starts with that dot. -/
def extension? (path : String) : Option String :=
  (fileName? path).bind fun name =>
    let back := name.toList.reverse
    let stem := (back.dropWhile (· != '.')).drop 1
    if stem.isEmpty then none else some (String.ofList (back.takeWhile (· != '.')).reverse)

def isAbsolute (path : String) : Bool := path.startsWith "/"

/-- The path that leads on from a directory; an absolute path leads there from anywhere. -/
def join (directory path : String) : String :=
  if directory.isEmpty || isAbsolute path then path
  else if directory.endsWith "/" then directory ++ path
  else directory ++ "/" ++ path

/-- The path and the directories above it, as many as there are, but at most `count`. -/
def ancestors : (count : Nat) → (path : String) → List String
  | 0, _ => []
  | count + 1, path =>
    if path.isEmpty then []
    else path :: ((parent? path).map (ancestors count)).getD []

/-- The names of a path in order; a slash at the end counts as a dot after it. -/
def names (path : String) : List String :=
  let names := (path.splitOn "/").filter (!·.isEmpty)
  if path.endsWith "/" then names ++ ["."] else names

end ClassGraft.Path

/-! ## Directories and files -/

namespace ClassGraft

/-- Why a file cannot be read or written. -/
inductive FileFault where
  | notFound
  | exists
  | notDirectory
  | isDirectory
  /-- A name in a path, or the path itself, that is longer than the system takes. -/
  | nameTooLong
  /-- A path with a zero in it. -/
  | zeroInPath
  /-- The bytes of a file are no text. -/
  | notText
  /-- Any other reason, in the words of the system. -/
  | other (reason : String)
  deriving DecidableEq, Repr

/-- The wording of the fault. -/
def FileFault.message : FileFault → String
  | notFound => "No such file or directory (os error 2)"
  | .exists => "File exists (os error 17)"
  | notDirectory => "Not a directory (os error 20)"
  | isDirectory => "Is a directory (os error 21)"
  | nameTooLong => "File name too long (os error 36)"
  | zeroInPath => "file name contained an unexpected NUL byte"
  | notText => "stream did not contain valid UTF-8"
  | other reason => reason

/-- A file, or a directory with what it holds, in order of the names. -/
inductive FileTree where
  | file (contents : Bytes)
  | directory (children : List (String × FileTree))

namespace FileTree

/-- The tree without files. -/
def empty : FileTree := directory []

def isDirectory : FileTree → Bool
  | directory _ => true
  | file _ => false

/-- What a directory holds. -/
def children : FileTree → List (String × FileTree)
  | directory children => children
  | file _ => []

/-- What stands at the end of a row of names. -/
def find? (tree : FileTree) : List String → Option FileTree
  | [] => some tree
  | name :: rest => (tree.children.lookup name).bind (find? · rest)

/-- The children with one of a name put in, in place of the one of that name. -/
def insertChild (name : String) (child : FileTree) :
    List (String × FileTree) → List (String × FileTree)
  | [] => [(name, child)]
  | (other, tree) :: rest =>
    if name < other then (name, child) :: (other, tree) :: rest
    else if name = other then (name, child) :: rest
    else (other, tree) :: insertChild name child rest

/-- The tree with something else at the end of a row of names, the last of which may be new. -/
def insert (tree : FileTree) (new : FileTree) : List String → FileTree
  | [] => new
  | name :: rest =>
    let child := ((tree.children.lookup name).getD empty).insert new rest
    directory (insertChild name child tree.children)

/-! ### Following paths -/

/-- The number of bytes that a name in a path may have. -/
def maxName : Nat := 255

/-- The number of bytes that a path may have. -/
def maxPath : Nat := 4095

/-- The row of names that leads where a row of names with dots leads from `here`, which is written
backwards.  All but the last of them must be names of directories. -/
def follow (tree : FileTree) (here : List String) : List String → Except FileFault (List String)
  | [] => .ok here.reverse
  | name :: rest =>
    match tree.find? here.reverse with
    | none => .error .notFound
    | some (file _) => .error .notDirectory
    | some (directory _) =>
      if maxName < name.utf8ByteSize then .error .nameTooLong
      else if name = "." then follow tree here rest
      else if name = ".." then if here.isEmpty then .error .notFound else follow tree here.tail rest
      else follow tree (name :: here) rest

/-- Whether a path may lead somewhere, whatever the tree. -/
def checkPath (path : String) : Except FileFault Unit :=
  if path.contains '\x00' then .error .zeroInPath
  else if maxPath < path.utf8ByteSize then .error .nameTooLong
  else if path.isEmpty || Path.isAbsolute path then .error .notFound
  else .ok ()

/-- The row of names that a path leads along. -/
def locate (tree : FileTree) (path : String) : Except FileFault (List String) := do
  checkPath path
  tree.follow [] (Path.names path)

/-- What a path leads to. -/
def get (tree : FileTree) (path : String) : Except FileFault FileTree := do
  match tree.find? (← tree.locate path) with
  | some found => return found
  | none => throw .notFound

/-! ### Reading and writing -/

/-- The contents of a file. -/
def read (tree : FileTree) (path : String) : Except FileFault Bytes := do
  match ← tree.get path with
  | file contents => return contents
  | directory _ => throw .isDirectory

/-- Whether a path leads to a directory. -/
def hasDirectory (tree : FileTree) (path : String) : Bool :=
  match tree.get path with
  | .ok found => found.isDirectory
  | .error _ => false

/-- The tree with other contents of a file, which may be new.  A path with a slash at its end is
that of a directory, even if there is none yet. -/
def write (tree : FileTree) (path : String) (contents : Bytes) : Except FileFault FileTree := do
  checkPath path
  let names := Path.names path
  if path.endsWith "/" then
    let _ ← tree.follow [] names.dropLast
    throw .isDirectory
  let names ← tree.follow [] names
  match tree.find? names with
  | some (directory _) => throw .isDirectory
  | _ => return tree.insert (file contents) names

/-- The tree with a new directory. -/
def addDirectory (tree : FileTree) (path : String) : Except FileFault FileTree := do
  let names ← tree.locate path
  match tree.find? names with
  | some _ => throw .exists
  | none => return tree.insert empty names

mutual

/-- The paths of all files, from the directory of the tree on. -/
def paths (above : String) : FileTree → List String
  | file _ => [above]
  | directory children => pathsOf above children

/-- The paths of all files of children. -/
def pathsOf (above : String) : List (String × FileTree) → List String
  | [] => []
  | (name, child) :: rest =>
    paths (if above.isEmpty then name else above ++ "/" ++ name) child ++ pathsOf above rest

end

end FileTree

end ClassGraft
