import TwigStyle.Digest.Sha256
import TwigStyle.Disk.Basic
import TwigStyle.Json.Reader
import TwigStyle.Rule.Ruleset

/-!
# The cache of clean files

The files that were found clean, each with a fingerprint of its content.  A file whose fingerprint
has not changed need not be checked again, as long as the rules are the same: the cache carries the
signature of the rules and is dropped as a whole when it differs.
-/

namespace TwigStyle

/-- The version of the program. -/
def version : String := "0.1.0"

/-- The files known to be clean. -/
structure Cache where
  /-- Where the cache is kept. -/
  path : Path
  /-- What has to stay the same for the cache to hold. -/
  signature : String
  /-- The fingerprint of each file, ascending by path. -/
  files : List (Path × String) := []
deriving DecidableEq, Repr

namespace Cache

/-- The signature of a run with these rules. -/
def signatureOf (rs : Ruleset) : String := version ++ "|" ++ rs.signature

/-- The fingerprint of a content. -/
def fingerprint (content : List Char) : String := Sha256.hexDigest content

/-- Record a fingerprint; a path that is there keeps its spelling. -/
def insert (file : Path) (print : String) : List (Path × String) → List (Path × String)
  | [] => [(file, print)]
  | (f, old) :: rest =>
    match file.compare f with
    | .lt => (file, print) :: (f, old) :: rest
    | .eq => (f, print) :: rest
    | .gt => (f, old) :: insert file print rest

/-- The fingerprint of a file. -/
def printOf? (c : Cache) (file : Path) : Option String :=
  (c.files.find? fun (f, _) => f.same file).map (·.2)

/-- Does a file with this content have to be checked? -/
def needs (c : Cache) (file : Path) (content : List Char) : Bool :=
  c.printOf? file != some (fingerprint content)

/-- Record that a file is clean with this content. -/
def mark (c : Cache) (file : Path) (content : List Char) : Cache :=
  { c with files := insert file (fingerprint content) c.files }

/-! ### As a file -/

/-- The cache as a JSON object. -/
def toJson (c : Cache) : Json :=
  .obj [
    ("signature", .str c.signature),
    ("files", .obj (c.files.map fun (f, print) => (f.text, .str print)))]

/-- The only member of a name; none if it is missing or given twice. -/
def onlyMember? (members : List (String × Json)) (name : String) : Option Json :=
  match members.filter (·.1 == name) with
  | [(_, v)] => some v
  | _ => none

/-- The signature and the files of a cache: an object, or the list of the two. -/
def parts? : Json → Option (Json × Json)
  | .obj members => do some (← onlyMember? members "signature", ← onlyMember? members "files")
  | .arr [signature, files] => some (signature, files)
  | _ => none

/-- The fingerprints of files from an object of strings. -/
def filesOf? : Json → Option (List (Path × String))
  | .obj members =>
    members.foldlM (fun files (name, v) =>
      match v with
      | .str print => some (insert ⟨name⟩ print files)
      | _ => none) []
  | _ => none

/-- The files of a cache text that was written under this signature. -/
def readFiles? (signature : String) (text : String) : Option (List (Path × String)) := do
  match ← parts? (← Json.parse? text) with
  | (.str s, files) =>
    let files ← filesOf? files
    if s = signature then some files else none
  | _ => none

/-- Load a cache; whatever is wrong with it, it is empty then. -/
def load (d : Disk) (path : Path) (signature : String) : Cache :=
  match d.read path with
  | .error _ => { path, signature }
  | .ok text => { path, signature, files := (readFiles? signature (String.ofList text)).getD [] }

/-- Write a cache to its file. -/
def save (c : Cache) (d : Disk) : Except DiskError Disk := d.write c.path c.toJson.compact.toList

/-- The text of a failure to write a cache. -/
def saveMessage (c : Cache) : String := "Failed to write cache: " ++ c.path.text

end Cache

end TwigStyle
