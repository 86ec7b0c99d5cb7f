import TypedProperties.Files.Path
import TypedProperties.Text.Bytes

/-! A file tree with a current directory, and the environment beside it: all that a run can
consult apart from its input. -/
namespace TypedProperties

inductive AccessFault where
  | notFound
  | notDirectory
  | isDirectory
  | nameTooLong
  | nulInName
  | notText
  /-- The file is open, and takes no more. -/
  | noRoom (reason : Text)
  /-- Includes are nested deeper than the files of the tree allow. -/
  | nestedTooDeep
  deriving DecidableEq, Repr

def AccessFault.message : AccessFault → String
  | .notFound => "No such file or directory (os error 2)"
  | .notDirectory => "Not a directory (os error 20)"
  | .isDirectory => "Is a directory (os error 21)"
  | .nameTooLong => "File name too long (os error 36)"
  | .nulInName => "file name contained an unexpected NUL byte"
  | .notText => "stream did not contain valid UTF-8"
  | .noRoom reason => reason.str
  | .nestedTooDeep => "includes are nested too deeply"

inductive Node where
  | file (content : Bytes)
  | directory
  deriving DecidableEq, Repr

abbrev Place := List Text

/-- How many bytes a file takes, and why it takes no more. -/
structure Limit where
  room : Nat
  reason : Text
  deriving DecidableEq, Repr

/-- Nodes by place, each directory listed, and the place where relative paths start. A file at a place with a
limit, new or old, cannot be written beyond it. -/
structure FileTree where
  nodes : List (Place × Node)
  current : Place
  limits : List (Place × Limit)
  deriving DecidableEq, Repr

namespace FileTree

def nodeAt (tree : FileTree) (place : Place) : Option Node :=
  if place = [] then some .directory else tree.nodes.lookup place

/-- Follow the parts of a path. Each step needs a directory to start from; the last one may lead to
a place where nothing stands. -/
def walk (tree : FileTree) : Place → List Text → Except AccessFault Place
  | place, [] => .ok place
  | place, part :: rest =>
    match tree.nodeAt place with
    | none => .error .notFound
    | some (.file _) => .error .notDirectory
    | some .directory =>
      if part = [] ∨ part = ['.'] then walk tree place rest
      else if part = ['.', '.'] then walk tree place.dropLast rest
      else if 255 < Text.byteLength part then .error .nameTooLong
      else walk tree (place ++ [part]) rest

def start (tree : FileTree) (path : Text) : Place :=
  if Path.isAbsolute path then [] else tree.current

def pathFault (path : Text) : Option AccessFault :=
  if path = [] then some .notFound
  else if '\x00' ∈ path then some .nulInName
  else if 4096 ≤ Text.byteLength path then some .nameTooLong
  else none

def locate (tree : FileTree) (path : Text) : Except AccessFault Place :=
  match pathFault path with
  | some fault => .error fault
  | none => tree.walk (tree.start path) (Path.parts path)

def find (tree : FileTree) (path : Text) : Except AccessFault Node :=
  match tree.locate path with
  | .error fault => .error fault
  | .ok place =>
    match tree.nodeAt place with
    | some node => .ok node
    | none => .error .notFound

def isFile (tree : FileTree) (path : Text) : Bool :=
  match tree.find path with
  | .ok (.file _) => true
  | _ => false

def isDirectory (tree : FileTree) (path : Text) : Bool :=
  match tree.find path with
  | .ok .directory => true
  | _ => false

def read (tree : FileTree) (path : Text) : Except AccessFault Bytes :=
  match tree.find path with
  | .ok (.file content) => .ok content
  | .ok .directory => .error .isDirectory
  | .error fault => .error fault

def put (tree : FileTree) (place : Place) (node : Node) : FileTree :=
  { tree with nodes := (place, node) :: tree.nodes.filter (·.1 ≠ place) }

/-- The tree with every directory on the way to `place`, from `base` on. -/
def putDirectories (tree : FileTree) (base : Place) : Place → FileTree
  | [] => tree
  | part :: rest =>
    let place := base ++ [part]
    (match tree.nodeAt place with
      | none => tree.put place .directory
      | some _ => tree).putDirectories place rest

/-- The last part of a path that is not empty, and the parts in front of it. -/
def splitLast (path : Text) : Option (List Text × Text) :=
  match (Path.parts path).reverse.dropWhile (· = []) with
  | [] => none
  | name :: above => some (above.reverse, name)

/-- Open a file for writing. It is empty then, whatever it held. Its directory has to exist, and a path with a slash at
the end names a directory. -/
def create (tree : FileTree) (path : Text) : Except AccessFault (FileTree × Place) :=
  match pathFault path, splitLast path with
  | some fault, _ => .error fault
  | none, none => .error .isDirectory
  | none, some (above, name) =>
    match tree.walk (tree.start path) above with
    | .error fault => .error fault
    | .ok place =>
      match tree.nodeAt place with
      | none => .error .notFound
      | some (.file _) => .error .notDirectory
      | some .directory =>
        if path.getLast? = some Path.separator ∨ !Path.isName name then .error .isDirectory
        else if 255 < Text.byteLength name then .error .nameTooLong
        else if tree.nodeAt (place ++ [name]) = some .directory then .error .isDirectory
        else .ok (tree.put (place ++ [name]) (.file []), place ++ [name])

def fill (tree : FileTree) (place : Place) (content : Bytes) : FileTree × Option AccessFault :=
  match (tree.limits.lookup place).filter (·.room < content.length) with
  | some limit => (tree.put place (.file (content.take limit.room)), some (.noRoom limit.reason))
  | none => (tree.put place (.file content), none)

/-- Write a file, over the old content if there is one. The old content is gone as soon as the file is open, also if
it cannot be written then. -/
def write (tree : FileTree) (path : Text) (content : Bytes) : FileTree × Option AccessFault :=
  match tree.create path with
  | .error fault => (tree, some fault)
  | .ok (opened, place) => opened.fill place content

/-- A tree that holds the given files below the current directory. A name that ends in a slash is an
empty directory. -/
def ofFiles (current : Place) (files : List (Text × Bytes)) : FileTree :=
  files.foldl (fun tree file =>
      let parts := Path.parts file.1
      let above := tree.putDirectories current parts.dropLast
      match parts.getLast? with
      | some name =>
        if Path.isName name then above.put (current ++ parts.dropLast ++ [name]) (.file file.2)
        else above
      | none => above)
    (FileTree.mk [] current [] |>.putDirectories [] current)

end FileTree

/-- The file tree and the environment variables, each with the bytes that it is set to. -/
structure World where
  tree : FileTree
  environment : List (Text × Bytes)
  deriving DecidableEq, Repr

namespace World

def empty : World := ⟨⟨[], [], []⟩, []⟩

/-- The value of a variable. One that is set to bytes that are no text has none, as if it were not set. -/
def value? (world : World) (name : Text) : Option Text :=
  (world.environment.lookup name).bind Text.decode

/-- A bound on how deep includes nest: more than there are files, so that a file includes itself where it is
exceeded. It leaves room for a file that includes itself and is found to search elsewhere then. -/
def nestingBound (world : World) : Nat :=
  let files := world.tree.nodes.length
  (files + 1) * (files + 3)

end World
end TypedProperties
