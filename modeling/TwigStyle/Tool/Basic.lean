import TwigStyle.Tool.Init
import TwigStyle.Tool.Lint
import TwigStyle.Tool.RuleList

/-!
# The program

A command line and a disk give an exit code, what is printed, and the disk after the run.  All of it
is a function of its arguments; reading and writing real files is left to the outermost layer.
-/

namespace TwigStyle

namespace Tool

/-- What a run of the program gives. -/
structure Exit where
  code : Nat
  /-- What is printed. -/
  output : String := ""
  /-- The failure that is reported, if there is one. -/
  failure : Option Failure := none
  disk : Disk

/-- The exit code for a command line that does not fit. -/
def usageCode : Nat := 2

/-- A run that failed changes nothing. -/
def failed (d : Disk) (f : Failure) : Exit := { code := 1, failure := some f, disk := d }

/-- Carry out a command. -/
def perform (d : Disk) (env : Environment) (i : Invocation) : Exit :=
  match i.request with
  | .version => { code := 0, output := "twig-cs-fixer " ++ version ++ "\n", disk := d }
  | .listRules => { code := 0, output := RuleList.text, disk := d }
  | .init force =>
    match Init.run d force with
    | .error f => failed d f
    | .ok (output, disk) => { code := 0, output, disk }
  | .lint request =>
    let source := ConfigSource.discover d env d.workingDirectory i.config
    match Lint.run d request source env.terminal with
    | .error f => failed d f
    | .ok r => { code := if r.fails then 1 else 0, output := r.text, disk := r.disk }

/-- Run the program on a command line. -/
def run (d : Disk) (env : Environment) (args : List String) : Exit :=
  match Arguments.parse? args with
  | none => { code := usageCode, disk := d }
  | some invocation => perform d env invocation

end Tool

end TwigStyle
