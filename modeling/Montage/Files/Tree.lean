import Montage.Files.Trouble
import Montage.Path
import Montage.Text.Split

/-!
# Trees of files

A tree lists what stands at which place.  Places are counted from the root or from the working
directory, which lies in directories of its own that nothing is known of but that they are there.
A path is walked name by name, each name but the last has to be that of a directory.

A change that fails leaves the tree as it was, except that `makeDirs` and `removeDir` may have gone
part of the way.
-/

namespace Montage

/-- A place in a tree: where to start, and the names to go down by. -/
structure Place where
  /-- Starts at the root, not at the working directory. -/
  rooted : Bool
  /-- How many levels above the working directory it starts. -/
  up : Nat
  names : List String
  deriving Repr, DecidableEq

namespace Place

/-- The place with the name one level down. -/
def child (p : Place) (name : String) : Place := { p with names := p.names ++ [name] }

/-- The place one level up; the root has none above it. -/
def above (p : Place) : Place :=
  if p.names.isEmpty && !p.rooted then { p with up := p.up + 1 }
  else { p with names := p.names.dropLast }

/-- The place is another one or lies below it. -/
def isWithin (p outer : Place) : Bool :=
  p.rooted == outer.rooted &&
    (p.up == outer.up && outer.names.isPrefixOf p.names || p.up < outer.up && outer.names.isEmpty)

def isBelow (p outer : Place) : Bool := p.isWithin outer && p != outer

end Place

/-- What stands at a place. -/
inductive Entry where
  | directory
  | file (contents : String)
  deriving Repr, DecidableEq

/-- Places and what stands there. -/
structure FileTree where
  entries : List (Place × Entry) := []
  deriving Repr, DecidableEq

namespace FileTree

def find? (t : FileTree) (p : Place) : Option Entry :=
  if p.names.isEmpty then some .directory else t.entries.lookup p

/-- The tree with something else at a place. -/
def put (t : FileTree) (p : Place) (e : Entry) : FileTree :=
  ⟨t.entries.filter (·.1 != p) ++ [(p, e)]⟩

def erase (t : FileTree) (p : Place) : FileTree := ⟨t.entries.filter (·.1 != p)⟩

def eraseBelow (t : FileTree) (p : Place) : FileTree :=
  ⟨t.entries.filter fun (q, _) => !q.isBelow p⟩

/-! ## Paths -/

/-- The longest name, in bytes. -/
def maxName : Nat := 255

/-- The length that a path has to stay below, in bytes. -/
def maxPath : Nat := 4096

/-- The names in a path. -/
def steps (path : String) : List String :=
  ((Text.splitWhere (· == '/') path.toList).filter (!·.isEmpty)).map String.ofList

/-- The path ends in a slash, so it can only mean a directory. -/
def endsInSlash (path : String) : Bool := path.toList.getLast? == some '/'

/-- The path ends in the name of something, not in one of the names `.` and `..` that every
directory has. -/
def endsInName (path : String) : Bool :=
  match (steps path).getLast? with
  | some name => name != "." && name != ".."
  | none => false

/-- Goes down from a place name by name.  Whatever is left behind has to be a directory. -/
def walk (t : FileTree) (p : Place) : List String → Except Trouble Place
  | [] => .ok p
  | name :: rest =>
    match t.find? p with
    | none => .error .notFound
    | some (.file _) => .error .notDirectory
    | some .directory =>
      if maxName < name.utf8ByteSize then .error .nameTooLong
      else if name = "." then t.walk p rest
      else if name = ".." then t.walk p.above rest
      else t.walk (p.child name) rest

/-- The place that some names in a path lead to. -/
def walkPath (t : FileTree) (path : String) (names : List String) : Except Trouble Place :=
  if path.toList.contains '\x00' then .error .zeroByte
  else if path.isEmpty then .error .notFound
  else if maxPath ≤ path.utf8ByteSize then .error .nameTooLong
  else t.walk ⟨path.toList.head? == some '/', 0, []⟩ names

/-- The place that a path names, whether or not something stands there and whether or not the path
ends in a slash. -/
def target (t : FileTree) (path : String) : Except Trouble Place := t.walkPath path (steps path)

/-- The directory in which the last name of a path is looked up. -/
def directoryOf (t : FileTree) (path : String) : Except Trouble Place :=
  t.walkPath path ((steps path).dropLast ++ ["."])

/-- What stands at the place that a path names. -/
def look (t : FileTree) (path : String) : Except Trouble (Place × Entry) :=
  match t.target path with
  | .error e => .error e
  | .ok p =>
    match t.find? p with
    | none => .error .notFound
    | some (.file contents) =>
      if endsInSlash path then .error .notDirectory else .ok (p, .file contents)
    | some .directory => .ok (p, .directory)

/-! ## Questions -/

/-- Whether something stands at a path. -/
def holds (t : FileTree) (path : String) : Except Trouble Bool :=
  match t.look path with
  | .ok _ => .ok true
  | .error .notFound => .ok false
  | .error e => .error e

def isDirectory (t : FileTree) (path : String) : Bool :=
  match t.look path with
  | .ok (_, .directory) => true
  | _ => false

/-! ## Changes -/

def makeDir (t : FileTree) (path : String) : Except Trouble FileTree :=
  match t.target path with
  | .error e => .error e
  | .ok p => if (t.find? p).isSome then .error .alreadyThere else .ok (t.put p .directory)

/-- Makes a directory and those above it, as far as they are not there.  Those above stay when the
directory itself cannot be made. -/
def makeDirs (t : FileTree) (path : String) : Except Trouble Unit × FileTree :=
  if path.isEmpty then (.ok (), t)
  else
    match t.makeDir path with
    | .ok t => (.ok (), t)
    | .error .notFound =>
      match h : Path.parent? path with
      | none => (.error .notFound, t)
      | some parent =>
        have := Path.length_parent?_lt h
        match t.makeDirs parent with
        | (.error e, t) => (.error e, t)
        | (.ok (), t) =>
          match t.makeDir path with
          | .ok t => (.ok (), t)
          | .error e => (if t.isDirectory path then .ok () else .error e, t)
    | .error e => (if t.isDirectory path then .ok () else .error e, t)
termination_by path.length

/-- Writes a file, which may be there already.  A path that ends in a slash is taken for that of a
directory before its last name is looked up. -/
def write (t : FileTree) (path contents : String) : Except Trouble FileTree :=
  if endsInSlash path && endsInName path then
    match t.directoryOf path with
    | .error e => .error e
    | .ok _ => .error .isDirectory
  else
    match t.target path with
    | .error e => .error e
    | .ok p =>
      match t.find? p with
      | some .directory => .error .isDirectory
      | _ => .ok (t.put p (.file contents))

/-- Moves a file, to where another one may be already. -/
def move (t : FileTree) (source target : String) : Except Trouble FileTree :=
  match t.look source with
  | .error e => .error e
  | .ok (_, .directory) => .error .isDirectory
  | .ok (p, .file contents) =>
    match t.write target contents with
    | .error e => .error e
    | .ok written =>
      match t.target target with
      | .error e => .error e
      | .ok q => if p = q then .ok t else .ok (written.erase p)

/-- Removes a file, if there is one. -/
def removeFile (t : FileTree) (path : String) : FileTree :=
  match t.look path with
  | .ok (p, .file _) => t.erase p
  | _ => t

/-- Removes what lies below a directory, if there is one, and then the directory itself.  The
directory stays if the path does not end in its name, or leads through what was removed. -/
def removeDir (t : FileTree) (path : String) : FileTree :=
  match t.look path with
  | .ok (p, .directory) =>
    let emptied := t.eraseBelow p
    if endsInName path then
      match emptied.target path with
      | .ok q => emptied.erase q
      | .error _ => emptied
    else emptied
  | _ => t

/-! ## Listing -/

/-- Nothing lies below the place. -/
def isLeaf (t : FileTree) (p : Place) : Bool :=
  t.entries.all fun (q, _) => !q.isBelow p

/-- A place that nothing lies below, as text; a directory ends in a slash. -/
def leafText : Place × Entry → String
  | (p, .file _) => "/".intercalate p.names
  | (p, .directory) => "/".intercalate p.names ++ "/"

/-- All files below the working directory, and the directories in which there is nothing, in the
order of their names. -/
def listing (t : FileTree) : List String :=
  let leaves := t.entries.filter fun (p, _) => !p.rooted && p.up == 0 && t.isLeaf p
  (leaves.mergeSort fun a b => !decide (b.1.names < a.1.names)).map leafText

end FileTree

end Montage
