import TwigStyle.Disk.Ignore

/-!
# Walking a directory

All files below a directory, except those that ignore files leave out.  Directories that are left
out are not entered.  The ignore files of all directories above the start count as well; a
repository inside of another one makes no difference.

What a walk starts from is never left out.
-/

namespace TwigStyle

namespace Disk

/-- The ignore files of one directory. -/
structure IgnoreRules where
  /-- How many directories are above it. -/
  depth : Nat
  /-- The lines that always count. -/
  general : List Ignore.Line := []
  /-- The lines of the version control. -/
  versioned : List Ignore.Line := []
  /-- The lines that stand in the repository itself. -/
  repository : List Ignore.Line := []

/-- The lines of an ignore file below a directory. -/
def ignoreLines (entries : List (String × DiskNode)) (l : Location) : List Ignore.Line :=
  match nodeBelow? entries l with
  | some (.file data) => Ignore.readLines data
  | _ => []

/-- The ignore files of a directory; those of the version control count if `heeds` is set. -/
def ignoreRules (heeds : Bool) (depth : Nat) (entries : List (String × DiskNode)) : IgnoreRules :=
  { depth
    general := ignoreLines entries [".ignore"]
    versioned := if heeds then ignoreLines entries [".gitignore"] else []
    repository := ignoreLines entries [".git", "info", "exclude"] }

/-- Is what is at a location left out?  The rules are those of the directories above it, innermost
    first.  A file that always counts goes before one of the version control, and that before one in
    the repository itself; among files of a sort the innermost with a matching line decides. -/
def isIgnored (rules : List IgnoreRules) (l : Location) (isDirectory : Bool) : Bool :=
  let first (lines : IgnoreRules → List Ignore.Line) : Option Bool :=
    rules.findSome? fun r => Ignore.verdict? (lines r) (l.drop r.depth) isDirectory
  (((first (·.general)).or (first (·.versioned))).or (first (·.repository))).getD false

mutual

/-- The files of a node at a location, which is reached by a path. -/
def walkNode (heeds : Bool) (rules : List IgnoreRules) (l : Location) (p : Path) :
    DiskNode → List Path
  | .file _ => [p]
  | .directory entries =>
    walkEntries heeds (ignoreRules heeds l.length entries :: rules) l p entries

/-- The files among the entries of a directory. -/
def walkEntries (heeds : Bool) (rules : List IgnoreRules) (l : Location) (p : Path) :
    List (String × DiskNode) → List Path
  | [] => []
  | (name, node) :: rest =>
    let here := l ++ [name]
    let isDirectory := match node with
      | .directory _ => true
      | .file _ => false
    let found :=
      if isIgnored rules here isDirectory then []
      else walkNode heeds rules here (p.join ⟨name⟩) node
    found ++ walkEntries heeds rules l p rest

end

/-- The ignore files of the directories on the way to a location, innermost first. -/
def rulesAbove (heeds : Bool) :
    (depth : Nat) → List (String × DiskNode) → Location → List IgnoreRules
  | _, _, [] => []
  | depth, entries, name :: rest =>
    let below := match entries.lookup name with
      | some (.directory children) => rulesAbove heeds (depth + 1) children rest
      | _ => []
    below ++ [ignoreRules heeds depth entries]

/-- The files below a path. -/
def walk (d : Disk) (heeds : Bool) (p : Path) : Except DiskError (List Path) :=
  match d.locate p with
  | .error e => .error e
  | .ok l =>
    match d.node? l with
    | none => .error .notFound
    | some node => .ok (walkNode heeds (rulesAbove heeds 0 d.entries l) l p node)

end Disk

end TwigStyle
