import TwigStyle.Disk.Basic
import TwigStyle.Output.Basic
import TwigStyle.Tool.Failure

/-!
# A configuration to start from

The command `init` writes a configuration file with the usual settings and explains the other ones
in comments.
-/

namespace TwigStyle

namespace Init

/-- The name of the file. -/
def fileName : String := ".twig-cs-fixer.toml"

/-- The lines of the file. -/
def configLines : List String :=
  ["# twig-cs-fixer configuration",
    "",
    "# Rule set to start from: \"TwigCsFixer\" (default) or \"Twig\"",
    "standard = \"TwigCsFixer\"",
    "",
    "# Lowest severity that makes the run fail: notice, warning, error or fatal",
    "fail_on = \"error\"",
    "",
    "# Cache of files already known to be clean, relative to the root",
    "# cache_file = \".twig-cs-fixer.cache\"",
    "",
    "[linter]",
    "# Root directory to lint, relative to this file (default: this directory)",
    "# root = \"./templates\"",
    "",
    "# Glob patterns to exclude, relative to the root",
    "exclude = [",
    "    \"**/vendor/**\",",
    "    \"**/node_modules/**\",",
    "]",
    "",
    "# Respect .gitignore files",
    "respect_gitignore = true",
    "",
    "# Template file extensions",
    "extensions = [\"twig\"]",
    "",
    "# Worker threads (default: one per core)",
    "# parallelism = 4",
    "",
    "# Rule configurations",
    "",
    "# [rules.Indent]",
    "# spaces = 4",
    "",
    "# [rules.VariableName]",
    "# case = \"snake_case\"   # or \"camelCase\", \"PascalCase\"",
    "",
    "# [rules.TrailingSpace]",
    "# enabled = false",
    "",
    "# [rules.OperatorSpacing]",
    "# paths = [\"emails/**\"]"]

/-- What is printed after the file was written. -/
def doneText (path : Path) : String :=
  Output.unlines [
    "Created " ++ path.text,
    "",
    "Next steps:",
    "  1. Edit " ++ fileName ++ " to configure rules",
    "  2. Run: twig-cs-fixer lint"]

/-- Write the file into the working directory; a file that is there is overwritten only by
    force. -/
def run (d : Disk) (force : Bool) : Except Failure (String × Disk) :=
  let path := d.workingDirectory.join ⟨fileName⟩
  if d.pathExists path && !force then
    .error {
      message :=
        "Configuration file already exists at " ++ path.text ++ ". Use --force to overwrite." }
  else match d.write path (Output.unlines configLines).toList with
    | .error e => .error { message := "Failed to write " ++ path.text, causes := [e.message] }
    | .ok d => .ok (doneText path, d)

end Init

end TwigStyle
