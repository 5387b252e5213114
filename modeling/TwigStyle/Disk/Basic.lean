import TwigStyle.Path.Basic

/-!
# The disk

The files a run can see, as a value: a tree of directories, and the directory the run was started
in.  There are no links, so a location is the list of names from the top of the tree down.

A path is resolved piece by piece, and every piece but the last has to be a directory: `a/../b`
exists only if `a` does, and a path that ends with a slash is no file.
-/

namespace TwigStyle

/-- What a file holds. -/
inductive FileData where
  | text (t : List Char)
  /-- Bytes that are no text. -/
  | binary (bytes : List UInt8)
deriving DecidableEq, Repr

/-- A file or a directory. -/
inductive DiskNode where
  | file (data : FileData)
  | directory (entries : List (String × DiskNode))

/-- The names from the top of the tree down to a file or directory. -/
abbrev Location : Type := List String

/-- Why the disk refuses a request. -/
inductive DiskError where
  | notFound
  | notDirectory
  | isDirectory
  | notText
deriving DecidableEq, Repr

/-- The text of a refusal. -/
def DiskError.message : DiskError → String
  | notFound => "No such file or directory (os error 2)"
  | notDirectory => "Not a directory (os error 20)"
  | isDirectory => "Is a directory (os error 21)"
  | notText => "stream did not contain valid UTF-8"

/-- A tree of files, and the directory in which relative paths start. -/
structure Disk where
  /-- What is at the top of the tree. -/
  entries : List (String × DiskNode) := []
  /-- An absolute path. -/
  workingDirectory : Path := ⟨"/"⟩

namespace Disk

/-! ### Looking things up -/

/-- What is at a location below a directory. -/
def nodeBelow? : List (String × DiskNode) → Location → Option DiskNode
  | entries, [] => some (.directory entries)
  | entries, name :: rest =>
    match entries.lookup name with
    | none => none
    | some (.directory children) => nodeBelow? children rest
    | some (.file data) => if rest.isEmpty then some (.file data) else none

/-- What is at a location. -/
def node? (d : Disk) (l : Location) : Option DiskNode := nodeBelow? d.entries l

/-- Take one piece of a path from a location, which has to be a directory. -/
def step (d : Disk) (l : Location) (piece : String) : Except DiskError Location :=
  match d.node? l with
  | none => .error .notFound
  | some (.file _) => .error .notDirectory
  | some (.directory _) =>
    if piece = "" ∨ piece = "." then .ok l
    else if piece = ".." then .ok l.dropLast
    else .ok (l ++ [piece])

/-- Take pieces of a path one after the other. -/
def steps (d : Disk) : Location → List String → Except DiskError Location
  | l, [] => .ok l
  | l, piece :: pieces =>
    match d.step l piece with
    | .error e => .error e
    | .ok l => d.steps l pieces

/-- A path, seen from the working directory. -/
def absolute (d : Disk) (p : Path) : Path := d.workingDirectory.join p

/-- The location a path stands for; it need not exist. -/
def locate (d : Disk) (p : Path) : Except DiskError Location :=
  if p.text = "" then .error .notFound
  else
    let pieces := Text.splitWhere (· == '/') (d.absolute p).text.toList
    d.steps [] (pieces.map String.ofList)

/-- What a path stands for. -/
def find (d : Disk) (p : Path) : Except DiskError DiskNode :=
  match d.locate p with
  | .error e => .error e
  | .ok l =>
    match d.node? l with
    | none => .error .notFound
    | some node => .ok node

/-- Is there anything at the path? -/
def pathExists (d : Disk) (p : Path) : Bool :=
  match d.find p with
  | .ok _ => true
  | .error _ => false

/-- Is there a file at the path? -/
def isFile (d : Disk) (p : Path) : Bool :=
  match d.find p with
  | .ok (.file _) => true
  | _ => false

/-- The text of a file. -/
def read (d : Disk) (p : Path) : Except DiskError (List Char) :=
  match d.find p with
  | .error e => .error e
  | .ok (.directory _) => .error .isDirectory
  | .ok (.file (.binary _)) => .error .notText
  | .ok (.file (.text t)) => .ok t

/-! ### Changing things -/

/-- Give a name another node, in its place or at the end. -/
def setEntry (name : String) (node : DiskNode) : List (String × DiskNode) → List (String × DiskNode)
  | [] => [(name, node)]
  | (n, old) :: rest =>
    if n = name then (name, node) :: rest else (n, old) :: setEntry name node rest

/-- Put a file below a directory; all directories on the way have to be there. -/
def putBelow (data : FileData) :
    List (String × DiskNode) → Location → Except DiskError (List (String × DiskNode))
  | _, [] => .error .isDirectory
  | entries, name :: rest =>
    match entries.lookup name with
    | some (.directory children) =>
      match putBelow data children rest with
      | .ok children => .ok (setEntry name (.directory children) entries)
      | .error e => .error e
    | some (.file _) =>
      if rest.isEmpty then .ok (setEntry name (.file data) entries) else .error .notDirectory
    | none => if rest.isEmpty then .ok (setEntry name (.file data) entries) else .error .notFound

/-- Write the text of a file, which need not be there; its directory has to be. -/
def write (d : Disk) (p : Path) (t : List Char) : Except DiskError Disk :=
  match d.locate p with
  | .error e => .error e
  | .ok l =>
    match putBelow (.text t) d.entries l with
    | .ok entries => .ok { d with entries }
    | .error e => .error e

/-- The node of a file or an empty directory with the directories above it. -/
def chain (node : DiskNode) : Location → DiskNode
  | [] => node
  | name :: rest => .directory [(name, chain node rest)]

/-- Put a node below a directory and make the directories that are missing. -/
def growBelow (node : DiskNode) : List (String × DiskNode) → Location → List (String × DiskNode)
  | entries, [] => entries
  | entries, name :: rest =>
    match entries.lookup name with
    | some (.directory children) =>
      if rest.isEmpty then
        match node with
        | .directory _ => entries
        | .file _ => setEntry name node entries
      else setEntry name (.directory (growBelow node children rest)) entries
    | _ => setEntry name (chain node rest) entries

/-- Put a file or directory on the disk, with the directories above it. -/
def grow (d : Disk) (l : Location) (node : DiskNode) : Disk :=
  { d with entries := growBelow node d.entries l }

/-- Remove what is at a location below a directory. -/
def removeBelow : List (String × DiskNode) → Location → List (String × DiskNode)
  | entries, [] => entries
  | entries, name :: rest =>
    if rest.isEmpty then entries.filter (·.1 != name)
    else match entries.lookup name with
      | some (.directory children) => setEntry name (.directory (removeBelow children rest)) entries
      | _ => entries

/-- Remove what is at a location. -/
def remove (d : Disk) (l : Location) : Disk := { d with entries := removeBelow d.entries l }

/-! ### All files -/

mutual

/-- The files of a node at a location. -/
def nodeFiles (l : Location) : DiskNode → List (Location × FileData)
  | .file data => [(l, data)]
  | .directory entries => entryFiles l entries

/-- The files among the entries of a directory. -/
def entryFiles (l : Location) : List (String × DiskNode) → List (Location × FileData)
  | [] => []
  | (name, node) :: rest => nodeFiles (l ++ [name]) node ++ entryFiles l rest

end

/-- All files with their locations. -/
def files (d : Disk) : List (Location × FileData) := entryFiles [] d.entries

end Disk

end TwigStyle
