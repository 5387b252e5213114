import TwigStyle.Tool.Basic

/-!
# The executable

The outermost layer: it takes the files that a command can ask for from the real file system onto
the disk, lets the program run on that, and writes back what has changed.  Contents are read only of
files that matter; any other file is taken without its content.
-/

namespace TwigStyle.Executable

/-- The location of an absolute path. -/
def locationOf (p : Path) : Location :=
  (Text.splitWhere (· == '/') p.text.toList).foldl (fun l piece =>
    match piece with
    | [] => l
    | ['.'] => l
    | ['.', '.'] => l.dropLast
    | piece => l ++ [String.ofList piece]) []

/-- The absolute path of a location. -/
def textOf (l : Location) : String := "/" ++ String.intercalate "/" l

/-- A location and those of the directories above it. -/
def upwards (l : Location) : List Location :=
  (List.range (l.length + 1)).map fun n => l.take n

/-- Bytes as the data of a file. -/
def dataOf (bytes : ByteArray) : FileData :=
  match String.fromUTF8? bytes with
  | some s => .text s.toList
  | none => .binary bytes.toList

/-- Take a file with its content, if there is one. -/
def takeFile (d : Disk) (l : Location) : IO Disk := do
  try
    return d.grow l (.file (dataOf (← IO.FS.readBinFile (textOf l))))
  catch _ => return d

/-- Take the existence of a file or directory, if there is one; what is taken already stays. -/
def takeName (d : Disk) (l : Location) : IO Disk := do
  let here := (← IO.currentDir) / textOf l
  if (d.node? l).isSome then return d
  else if ← here.isDir then return d.grow l (.directory [])
  else if ← here.pathExists then return d.grow l (.file (.binary []))
  else return d

/-- Take everything below a location; contents are read of the files whose name is wanted. -/
partial def takeTree (wanted : String → Bool) (d : Disk) (l : Location) : IO Disk := do
  let here := (← IO.currentDir) / textOf l
  if ← here.isDir then
    let mut d := d.grow l (.directory [])
    for entry in ← here.readDir do
      let below := l ++ [entry.fileName]
      let kind := (← entry.path.symlinkMetadata).type
      if kind == .dir || !(← entry.path.isDir) then d ← takeTree wanted d below
    return d
  else if wanted (l.getLastD "") then takeFile d l
  else takeName d l

/-- The names of ignore files. -/
def ignoreNames : List String := [".ignore", ".gitignore"]

/-- Take the files that say where the configuration comes from. -/
def takeConfigs (d : Disk) (env : Environment) (named : Option Path) : IO Disk := do
  let mut d := d
  for l in upwards (locationOf d.workingDirectory) do
    d ← takeName d (l ++ [".git"])
    for name in ConfigSource.projectFiles do
      let file := l ++ [name]
      if !(← ((← IO.currentDir) / textOf file).isDir) then d ← takeFile d file
  for path in named.toList ++ (ConfigSource.userFile? env).toList do
    let l := locationOf (d.absolute path)
    d ← takeName d l
    d ← takeFile d l
  return d

/-- Take the files that a run of `lint` can ask for. -/
def takeProject (d : Disk) (request : LintRequest) (config : Config) : IO Disk := do
  let root := d.workingDirectory.join config.run.root
  let cache := root.join (config.cacheFile.getD Lint.cacheFile)
  let wanted (name : String) : Bool :=
    ignoreNames.contains name ||
      (Path.extension? ⟨name⟩).any fun e => config.run.extensions.contains (String.ofList e)
  let mut d := d
  for path in if request.paths.isEmpty then [root] else request.paths.map root.join do
    let l := locationOf path
    for above in upwards l do
      for name in ignoreNames do
        d ← takeFile d (above ++ [name])
    d ← takeTree wanted d l
    d ← takeFile d l
  takeFile d (locationOf cache)

/-- Take what a command can ask for. -/
def take (d : Disk) (env : Environment) (i : Invocation) : IO Disk := do
  match i.request with
  | .lint request =>
    let d ← takeConfigs d env i.config
    let source := ConfigSource.discover d env d.workingDirectory i.config
    match source.load d with
    | .ok config => takeProject d request config
    | .error _ => return d
  | .init _ => takeName d (locationOf (d.workingDirectory.join ⟨Init.fileName⟩))
  | _ => return d

/-- Write the files that differ from those before. -/
def writeBack (before after : Disk) : IO Unit := do
  for (l, data) in after.files do
    let same := match before.node? l with
      | some (.file old) => old == data
      | _ => false
    if !same then
      match data with
      | .text t => IO.FS.writeFile (textOf l) (String.ofList t)
      | .binary _ => pure ()

/-- The lines that explain the command line. -/
def usage : String :=
  Output.unlines [
    "Usage: twig-cs-fixer [-v] [-c CONFIG] COMMAND",
    "",
    "Commands:",
    "  lint [--fix] [-f text|json|compact] [-l LEVEL] [--no-cache] [-e PATTERN]... [PATHS]...",
    "  list-rules",
    "  init [--force]"]

/-- What the environment of this run says. -/
def environment : IO Environment := do
  return {
    home := (← IO.getEnv "HOME").map Path.mk
    configDirectory := (← IO.getEnv "TWIG_CS_FIXER_CONFIG_DIR").map Path.mk
    terminal := ← (← IO.getStdout).isTty }

/-- Run the program on the real file system, and give its exit code. -/
def run (args : List String) : IO UInt32 := do
  match Arguments.parse? args with
  | none =>
    IO.eprint usage
    return UInt32.ofNat Tool.usageCode
  | some invocation =>
    let workingDirectory : Path := ⟨(← IO.currentDir).toString⟩
    let env ← environment
    let start := ({ workingDirectory } : Disk).grow (locationOf workingDirectory) (.directory [])
    let before ← take start env invocation
    let exit := Tool.perform before env invocation
    writeBack before exit.disk
    IO.print exit.output
    for failure in exit.failure.toList do
      IO.eprintln failure.text
    return UInt32.ofNat exit.code

end TwigStyle.Executable

/-- The program. -/
def main (args : List String) : IO UInt32 := TwigStyle.Executable.run args
