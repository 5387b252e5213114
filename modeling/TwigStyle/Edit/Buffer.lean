import TwigStyle.Text.Position

/-!
# The edit buffer

A buffer holds the values of the tokens of one pass and takes edits of them.  A value is edited once
in a pass; every further edit of it is refused and has to wait for the next pass.  Edits can be
staged in a change set, which is applied as a whole or not at all.

The buffer remembers, over all passes of a file, the last two values written to each index.  An edit
that would bring back the value which the pass right before replaced is an oscillation: it puts the
whole pass in conflict, and from then on every edit of the pass is refused.

`Command` is what can be asked of a buffer and `Reply` what it answers; `EditBuffer.run` is the
buffer as a state machine over them.
-/

namespace TwigStyle

/-- The text of an edit. -/
inductive Insertion where
  | text (t : List Char)
  /-- The line break of the file. -/
  | lineBreak
deriving DecidableEq, Repr

/-- A request to a buffer.  Indices are those of the tokens of the pass. -/
inductive Command where
  | replace (index : Nat) (what : Insertion)
  | append (index : Nat) (what : Insertion)
  | prepend (index : Nat) (what : Insertion)
  /-- Start to stage edits. -/
  | beginSet
  /-- Apply the staged edits. -/
  | endSet
  /-- Ask for the value of a token. -/
  | value (index : Nat)
  /-- Ask how many passes are over. -/
  | passes
  /-- Ask for the line break of the file. -/
  | lineBreak
deriving DecidableEq, Repr

/-- The answer to a request. -/
inductive Reply where
  | nothing
  | accepted (yes : Bool)
  | text (t : Option (List Char))
  | count (n : Nat)
deriving DecidableEq, Repr

/-- The last two values written to an index, and the pass that wrote the last one. -/
structure Writing where
  previous : List Char
  current : List Char
  pass : Nat
deriving DecidableEq, Repr

/-- The values of the tokens of a pass, under edit. -/
structure EditBuffer where
  values : Array (List Char) := #[]
  /-- Which values were edited in this pass. -/
  edited : Array Bool := #[]
  /-- How many edits this pass accepted. -/
  edits : Nat := 0
  /-- This pass refuses every further edit. -/
  inConflict : Bool := false
  /-- The last writing of each index, over the passes of the file. -/
  history : Array (Option Writing) := #[]
  /-- The staged edits in order, each index once, while a change set is open. -/
  changeSet : Option (List (Nat × List Char)) := none
  /-- The line break of the file. -/
  lineBreak : List Char := ['\n']
  /-- How many passes over the file are over. -/
  passes : Nat := 0
deriving DecidableEq, Repr, Inhabited

namespace EditBuffer

/-! ### Passes -/

/-- Forget the history and take up the line break of a new file. -/
def startFile (b : EditBuffer) (content : List Char) : EditBuffer :=
  { b with
    lineBreak := lineBreakOf content
    passes := 0
    history := Array.replicate b.values.size none }

/-- Forget the edits, the conflict and the change set of the last pass. -/
def startPass (b : EditBuffer) : EditBuffer :=
  { b with
    edited := Array.replicate b.values.size false
    edits := 0
    inConflict := false
    changeSet := none }

/-- Take up the values of the tokens of a pass. -/
def load (b : EditBuffer) (values : Array (List Char)) : EditBuffer :=
  { b with
    values
    edited := Array.replicate values.size false
    history := b.history ++ Array.replicate (values.size - b.history.size) none }

/-- Count a pass. -/
def endPass (b : EditBuffer) : EditBuffer := { b with passes := b.passes + 1 }

/-- Nothing was edited, and nothing was refused because of an oscillation. -/
def isQuiet (b : EditBuffer) : Bool := b.edits == 0 && !b.inConflict

/-- The values, concatenated. -/
def text (b : EditBuffer) : List Char := b.values.toList.flatten

/-! ### Single edits -/

/-- The last writing of an index. -/
def lastWriting? (b : EditBuffer) (i : Nat) : Option Writing := b.history[i]?.join

/-- Write a value and remember it. -/
def commit (b : EditBuffer) (i : Nat) (text : List Char) (w : Writing) : EditBuffer :=
  { b with
    values := b.values.setIfInBounds i text
    edited := b.edited.setIfInBounds i true
    history := b.history.setIfInBounds i (some w)
    edits := b.edits + 1 }

/-- Write a value, or refuse to. -/
def write (b : EditBuffer) (i : Nat) (text : List Char) : Bool × EditBuffer :=
  if b.inConflict then (false, b)
  else if b.edited[i]?.getD false then (false, b)
  else match b.values[i]? with
    | none => (false, b)
    | some old =>
      match b.lastWriting? i with
      | none => (true, b.commit i text ⟨old, text, b.passes⟩)
      | some w =>
        if text = w.previous ∧ w.pass + 1 = b.passes then (false, { b with inConflict := true })
        else (true, b.commit i text ⟨w.current, text, b.passes⟩)

/-- Stage a value: it takes the place of one staged before for the same index. -/
def stage (i : Nat) (text : List Char) : List (Nat × List Char) → List (Nat × List Char)
  | [] => [(i, text)]
  | (j, t) :: staged => if j = i then (i, text) :: staged else (j, t) :: stage i text staged

/-- Replace a value: at once, or staged while a change set is open. -/
def replace (b : EditBuffer) (i : Nat) (text : List Char) : Bool × EditBuffer :=
  if b.inConflict then (false, b)
  else match b.changeSet with
    | some staged => (true, { b with changeSet := some (stage i text staged) })
    | none => b.write i text

/-- The value that the next edit of an index builds on: the staged one if there is one. -/
def pending? (b : EditBuffer) (i : Nat) : Option (List Char) :=
  ((b.changeSet.getD []).lookup i).or b.values[i]?

/-- Change a value by a function of it. -/
def modify (b : EditBuffer) (i : Nat) (f : List Char → List Char) : Bool × EditBuffer :=
  match b.pending? i with
  | none => (false, b)
  | some t => b.replace i (f t)

/-! ### Change sets -/

/-- What an index held before a staged edit of it was applied. -/
structure Undo where
  index : Nat
  value : List Char
  writing : Option Writing
deriving DecidableEq, Repr

/-- What to do to take back an edit of an index that is about to be made. -/
def undoOf (b : EditBuffer) (i : Nat) : Undo :=
  ⟨i, b.values[i]?.getD [], b.lastWriting? i⟩

/-- Take back one edit. -/
def takeBack (b : EditBuffer) (u : Undo) : EditBuffer :=
  { b with
    values := b.values.setIfInBounds u.index u.value
    edited := b.edited.setIfInBounds u.index false
    history := b.history.setIfInBounds u.index u.writing
    edits := b.edits - 1 }

/-- Apply staged edits in order; at the first refusal take back those applied, the last one
    first.  `undo` holds what to take back. -/
def applyStaged (b : EditBuffer) (undo : List Undo) : List (Nat × List Char) → Bool × EditBuffer
  | [] => (true, b)
  | (i, text) :: staged =>
    let last := b.undoOf i
    match b.write i text with
    | (true, b') => applyStaged b' (last :: undo) staged
    | (false, b') => (false, undo.foldl takeBack b')

/-- Start to stage edits; what was staged before is dropped. -/
def beginSet (b : EditBuffer) : EditBuffer :=
  if b.inConflict then b else { b with changeSet := some [] }

/-- Apply the staged edits, all of them or none. -/
def endSet (b : EditBuffer) : Bool × EditBuffer :=
  match b.changeSet with
  | none => (false, b)
  | some staged =>
    let b := { b with changeSet := none }
    if b.inConflict then (false, b) else b.applyStaged [] staged

/-! ### Commands -/

/-- The text of an insertion. -/
def insertionText (b : EditBuffer) : Insertion → List Char
  | .text t => t
  | .lineBreak => b.lineBreak

/-- Reply whether an edit was accepted. -/
def answer : Bool × EditBuffer → Reply × EditBuffer
  | (yes, b) => (.accepted yes, b)

/-- Carry out a command. -/
def run (b : EditBuffer) : Command → Reply × EditBuffer
  | .replace i t => answer (b.replace i (b.insertionText t))
  | .append i t =>
    let added := b.insertionText t
    answer (b.modify i (· ++ added))
  | .prepend i t =>
    let added := b.insertionText t
    answer (b.modify i (added ++ ·))
  | .beginSet => (.nothing, b.beginSet)
  | .endSet => answer b.endSet
  | .value i => (.text b.values[i]?, b)
  | .passes => (.count b.passes, b)
  | .lineBreak => (.text (some b.lineBreak), b)

/-- Carry out commands in order. -/
def runAll (b : EditBuffer) : List Command → List Reply × EditBuffer
  | [] => ([], b)
  | c :: cs =>
    let (reply, b) := b.run c
    let (replies, b) := b.runAll cs
    (reply :: replies, b)

end EditBuffer

end TwigStyle
