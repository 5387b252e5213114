import TwigStyle.Rule.Ruleset

/-!
# The fixer

Fixing goes in passes.  A pass cuts the current text into tokens, lets every fixable rule edit their
values, and joins the values to the next text.  It ends with the first pass in which nothing is
edited; a file that is still being edited after `maxPasses` passes cannot be fixed.

A pass in conflict, where an edit would undo one of the pass before, is thrown away and the next pass
starts from the same text.  Since the history has moved on, it need not end in conflict again.
-/

namespace TwigStyle

/-- How many passes a file gets. -/
def maxPasses : Nat := 50

/-- Why a file cannot be fixed. -/
inductive FixError where
  /-- The rules were still editing after this many passes. -/
  | endless (passes : Nat)
  /-- The file cannot be cut into tokens. -/
  | unreadable (cause : LexError)
  /-- The edits of a pass, counted from 1, led to a text that cannot be cut into tokens. -/
  | broken (pass : Nat) (cause : LexError)
deriving DecidableEq, Repr

namespace FixError

/-- The text of an error. -/
def message : FixError → String
  | endless passes =>
    s!"Cannot fix the file: the rules did not converge after {passes} iterations."
  | unreadable cause => "Cannot fix the file: " ++ cause.message
  | broken pass cause =>
    s!"Cannot fix the file: the fixes of loop {pass} produced an invalid template (" ++
      cause.message ++ ")"

/-- The line at fault; only a line of the file itself is of use. -/
def line : FixError → Option Nat
  | unreadable cause => some cause.line
  | _ => none

end FixError

/-- What became of a finding in a pass. -/
structure FixEvent where
  /-- The name of the rule. -/
  rule : String
  /-- How often the rule was asked before. -/
  call : Nat
  stream : TokenStream
  finding : Finding
  /-- The replies to the repair; none if the finding is silenced. -/
  replies : Option (List Reply)

/-- How often rules were asked to fix a file, by their names. -/
abbrev CallCounts : Type := List (String × Nat)

/-- A fixer: how it cuts texts into tokens, its buffer, how often each rule was asked, and what
    became of the findings. -/
structure Fixer where
  table : OperatorTable
  buffer : EditBuffer := {}
  calls : CallCounts := []
  events : Array FixEvent := #[]

namespace Fixer

/-- How often a rule was asked. -/
def callsOf (fx : Fixer) (rule : String) : Nat := (fx.calls.lookup rule).getD 0

/-- Count a call of a rule. -/
def countCall (fx : Fixer) (rule : String) : Fixer :=
  { fx with calls := (rule, fx.callsOf rule + 1) :: fx.calls.filter (·.1 != rule) }

/-- Carry out the repair of a finding that is not silenced. -/
def mend (directives : List ViolationId) (s : TokenStream) (rule : String) (call : Nat)
    (fx : Fixer) (f : Finding) : Fixer :=
  let event := { rule, call, stream := s, finding := f, replies := none : FixEvent }
  if f.isSilenced directives rule then { fx with events := fx.events.push event }
  else
    let ⟨table, buffer, calls, events⟩ := fx
    let (replies, buffer) := buffer.runAll (f.repair.getD [])
    { table, buffer, calls, events := events.push { event with replies := some replies } }

/-- Let a rule edit the values. -/
def applyRule (file : SourceFile) (t : Template) (fx : Fixer) (r : Rule) : Fixer :=
  if r.appliesTo file then
    let call := fx.callsOf r.name
    (r.fixFindings call t.stream).foldl (mend t.directives t.stream r.name call)
      (fx.countCall r.name)
  else fx

/-- One pass over a text that was cut into tokens. -/
def pass (rs : Ruleset) (file : SourceFile) (t : Template) (fx : Fixer) : Fixer :=
  let fx := { fx with buffer := fx.buffer.load t.stream.values }
  let fx := rs.fixable.foldl (applyRule file t) fx
  { fx with buffer := fx.buffer.endPass }

/-- Pass after pass until nothing is edited, `remaining` of them at most. -/
def passes (rs : Ruleset) (file : SourceFile) :
    (remaining : Nat) → (content : List Char) → Fixer → Except FixError (List Char) × Fixer
  | 0, _, fx => (.error (.endless fx.buffer.passes), fx)
  | remaining + 1, content, fx =>
    let fx := { fx with buffer := fx.buffer.startPass }
    match tokenize fx.table content with
    | .error e =>
      (.error (if fx.buffer.passes = 0 then .unreadable e else .broken fx.buffer.passes e), fx)
    | .ok t =>
      let fx := fx.pass rs { file with content } t
      if fx.buffer.isQuiet then (.ok content, fx)
      else if fx.buffer.inConflict then passes rs file remaining content fx
      else passes rs file remaining fx.buffer.text fx

/-- Fix a file: the text it should have, and the fixer for the next file. -/
def fixFile (fx : Fixer) (rs : Ruleset) (file : SourceFile) :
    Except FixError (List Char) × Fixer :=
  passes rs file maxPasses file.content { fx with buffer := fx.buffer.startFile file.content }

end Fixer

end TwigStyle
