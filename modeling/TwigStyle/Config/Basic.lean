import TwigStyle.Path.Basic
import TwigStyle.Toml.Document
import TwigStyle.Violation.Severity

/-!
# Configuration

What a project can set: the standard to start from, the severity at which a run fails, where the
cache is kept, which files are checked, and options for single rules.

The shape of a configuration is checked when it is read.  A key that is not known is ignored; a key
of the wrong type makes the whole configuration invalid.
-/

namespace TwigStyle

/-- The settings of one rule. -/
structure RuleSettings where
  /-- Whether the rule runs; it does unless this says no. -/
  enabled : Option Bool := none
  /-- Patterns of the files the rule is limited to; none of them means all files. -/
  paths : List String := []
  /-- The options of the rule itself. -/
  options : List (String × Toml) := []
deriving Repr

/-- Which files are checked, and how. -/
structure RunSettings where
  /-- The directory of the project. -/
  root : Path := ⟨"."⟩
  /-- Patterns of files to leave out. -/
  excluded : List String := []
  /-- Patterns of files to keep; none of them means all files. -/
  included : List String := []
  /-- Whether ignore files of the version control are heeded. -/
  heedsIgnoreFiles : Bool := true
  /-- How many files may be processed at the same time. -/
  parallelism : Option Nat := none
  /-- The extensions of templates. -/
  extensions : List String := ["twig"]
deriving DecidableEq, Repr

/-- The settings of a project that says nothing about its files: dependencies are left out. -/
def RunSettings.unset : RunSettings := { excluded := ["**/vendor/**", "**/node_modules/**"] }

/-- The settings of a project. -/
structure Config where
  /-- The name of the standard to start from. -/
  standard : Option String := none
  /-- The name of the severity at which a run fails. -/
  failOn : Option String := none
  cacheFile : Option Path := none
  run : RunSettings := RunSettings.unset
  /-- The settings of rules, each name once. -/
  rules : List (String × RuleSettings) := []
deriving Repr

namespace RuleSettings

/-- A count among the options, or else the default. -/
def natOption (s : RuleSettings) (key : String) (default : Nat) : Nat :=
  ((s.options.lookup key).bind (·.nat?)).getD default

/-- A text among the options, or else the default. -/
def textOption (s : RuleSettings) (key default : String) : String :=
  ((s.options.lookup key).bind (·.string?)).getD default

/-- Does the rule run? -/
def isEnabled (s : RuleSettings) : Bool := s.enabled.getD true

end RuleSettings

/-! ### Reading -/

/-- A member that may be missing: its value by `read`, or else the default. -/
def memberOr? {α : Type} (ms : Toml.Members) (key : String) (read : Toml → Option α) (default : α) :
    Option α :=
  match ms.lookup key with
  | none => some default
  | some v => read v

/-- A path. -/
def pathOf? (v : Toml) : Option Path := v.string?.map Path.mk

/-- The settings of a rule from a table; every other member is an option. -/
def RuleSettings.ofToml? (v : Toml) : Option RuleSettings := do
  let ms ← v.members?
  let options := ms.filter fun (key, _) => key != "enabled" && key != "paths"
  some {
    enabled := ← memberOr? ms "enabled" (·.boolean?.map some) none
    paths := ← memberOr? ms "paths" (·.strings?) []
    options := ← Toml.optionMembers? options }

/-- The settings of rules from a table of tables. -/
def ruleSettingsOf? (v : Toml) : Option (List (String × RuleSettings)) := do
  (← v.members?).mapM fun (name, v) => do some (name, ← RuleSettings.ofToml? v)

/-- The names of the file settings, in order. -/
def RunSettings.keys : List String :=
  ["root", "exclude", "include", "respect_gitignore", "parallelism", "extensions"]

/-- The file settings from the members of a table. -/
def RunSettings.ofMembers? (ms : Toml.Members) : Option RunSettings := do
  let unset : RunSettings := {}
  some {
    root := ← memberOr? ms "root" pathOf? unset.root
    excluded := ← memberOr? ms "exclude" (·.strings?) unset.excluded
    included := ← memberOr? ms "include" (·.strings?) unset.included
    heedsIgnoreFiles := ← memberOr? ms "respect_gitignore" (·.boolean?) unset.heedsIgnoreFiles
    parallelism := ← memberOr? ms "parallelism" (·.nat?.map some) unset.parallelism
    extensions := ← memberOr? ms "extensions" (·.strings?) unset.extensions }

/-- The file settings from a table, or from the list of their values in order. -/
def RunSettings.ofToml? (v : Toml) : Option RunSettings :=
  match v.members?, v.items? with
  | some ms, _ => ofMembers? ms
  | none, some items => ofMembers? (keys.zip items)
  | none, none => none

namespace Config

/-- A configuration from the members of a document. -/
def ofMembers? (ms : Toml.Members) : Option Config := do
  some {
    standard := ← memberOr? ms "standard" (·.string?.map some) none
    failOn := ← memberOr? ms "fail_on" (·.string?.map some) none
    cacheFile := ← memberOr? ms "cache_file" (fun v => (pathOf? v).map some) none
    run := ← memberOr? ms "linter" RunSettings.ofToml? RunSettings.unset
    rules := ← memberOr? ms "rules" ruleSettingsOf? [] }

/-- Read a configuration; none if the text is not well formed or a key has the wrong type. -/
def parse? (text : List Char) : Option Config := (Toml.parse? text).bind ofMembers?

/-- The settings of a rule, if there are any. -/
def settingsOf? (c : Config) (rule : String) : Option RuleSettings := c.rules.lookup rule

/-- Does a rule run?  It does unless its settings say no. -/
def isEnabled (c : Config) (rule : String) : Bool := (c.settingsOf? rule).all (·.isEnabled)

/-- The name of no severity. -/
structure UnknownSeverity where
  name : String
deriving DecidableEq, Repr

/-- The text of the error. -/
def UnknownSeverity.message (e : UnknownSeverity) : String :=
  let name := e.name
  s!"Invalid value for `fail_on`: unknown severity `{name}`"

/-- The severity at which a run fails. -/
def failSeverity (c : Config) : Except UnknownSeverity Severity :=
  match c.failOn with
  | none => .ok .error
  | some name =>
    match Severity.ofLabel? name with
    | some s => .ok s
    | none => .error ⟨name⟩

end Config

end TwigStyle
