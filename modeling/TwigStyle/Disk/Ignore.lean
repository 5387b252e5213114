import TwigStyle.Disk.Basic
import TwigStyle.Path.Glob

/-!
# Ignore files

Each line of an ignore file is a pattern of what is left out below its directory.  A pattern with a
slash is matched from that directory on, any other one at every depth; a slash at its end limits it
to directories, and a `!` in front keeps what it matches.  The last line that matches decides.

`*` and `?` do not cross a slash here, `**` is any number of directories, and a backslash takes away
the meaning of the next character.  Braces hold alternatives with commas between them, so that a
pattern stands for all the patterns that one can choose from it.
-/

namespace TwigStyle

namespace Ignore

/-- One component of a pattern. -/
inductive Segment where
  /-- Any number of components. -/
  | anyDepth
  /-- One component. -/
  | component (items : List Glob.Item)
deriving DecidableEq, Repr

/-- A line of an ignore file. -/
structure Line where
  /-- What it matches is kept. -/
  keeps : Bool
  directoriesOnly : Bool
  /-- The patterns it stands for. -/
  alternatives : List (List Segment)
deriving DecidableEq, Repr

/-! ### Alternatives -/

/-- What was read of a group of alternatives. -/
structure Group where
  /-- The choices for the text in front of the group. -/
  front : List (List Char)
  /-- The choices for the alternatives before the last comma. -/
  closed : List (List Char) := []

/-- Every text of `xs` followed by every text of `ys`. -/
def products (xs ys : List (List Char)) : List (List Char) :=
  xs.flatMap fun x => ys.map (x ++ ·)

/-- Write a text after each of the choices. -/
def extend (choices : List (List Char)) (t : List Char) : List (List Char) := choices.map (· ++ t)

/-- The choices for a group and the text in front of it.  An empty alternative cannot be chosen, and
    a group without any other is not there. -/
def Group.close (g : Group) (last : List (List Char)) : List (List Char) :=
  match (g.closed ++ last).filter (!·.isEmpty) with
  | [] => g.front
  | parts => products g.front parts

/-- The patterns that a pattern with braces stands for; none if a brace has no partner.  `groups`
    are the open groups, innermost first, `choices` those for the text since the last brace or comma,
    and `set` the size of the open set of characters, in which nothing has a meaning. -/
def expand? (groups : List Group) (choices : List (List Char)) (set : Option Nat) :
    List Char → Option (List (List Char))
  | [] => if groups.isEmpty then some choices else none
  | c :: t =>
    match set with
    | some n =>
      expand? groups (extend choices [c]) (if c == ']' && n != 0 then none else some (n + 1)) t
    | none =>
      match c, t, groups with
      | '\\', d :: t, _ => expand? groups (extend choices ['\\', d]) none t
      | '[', '!' :: t, _ => expand? groups (extend choices ['[', '!']) (some 0) t
      | '[', '^' :: t, _ => expand? groups (extend choices ['[', '^']) (some 0) t
      | '[', t, _ => expand? groups (extend choices ['[']) (some 0) t
      | '\x7b', t, _ => expand? ({ front := choices } :: groups) [[]] none t
      | ',', t, g :: rest => expand? ({ g with closed := g.closed ++ choices } :: rest) [[]] none t
      | '\x7d', t, g :: rest => expand? rest (g.close choices) none t
      | '\x7d', _, [] => none
      | c, t, _ => expand? groups (extend choices [c]) none t

/-! ### Reading -/

/-- Read one component; none if it is malformed.  `set` is the set of characters that is open. -/
def readComponent? (set : Option Glob.OpenSet) : List Char → Option (List Glob.Item)
  | [] => if set.isSome then none else some []
  | c :: t =>
    match set with
    | some s =>
      if c == ']' && !s.chars.isEmpty then (readComponent? none t).map (s.close :: ·)
      else readComponent? (some { s with chars := s.chars ++ [c] }) t
    | none =>
      match c, t with
      | '\\', d :: t => (readComponent? none t).map (.char d :: ·)
      | '\\', [] => none
      | '?', t => (readComponent? none t).map (.anyChar :: ·)
      | '*', t => (readComponent? none t).map (.anyRun :: ·)
      | '[', '!' :: t => readComponent? (some ⟨0, true, []⟩) t
      | '[', '^' :: t => readComponent? (some ⟨0, true, []⟩) t
      | '[', t => readComponent? (some ⟨0, false, []⟩) t
      | c, t => (readComponent? none t).map (.char c :: ·)

/-- Read a component of a pattern. -/
def readSegment? (piece : List Char) : Option Segment :=
  if piece == ['*', '*'] then some .anyDepth else (readComponent? none piece).map .component

/-- A pattern that ends with any depth does not match the directory itself. -/
def belowOnly : List Segment → List Segment
  | [] => []
  | [.component items, .anyDepth] => [.component items, .anyDepth, .component [.anyRun]]
  | s :: rest => s :: belowOnly rest

/-- The segments of a pattern without braces, which may be matched at every depth. -/
def segments? (free : Bool) (pattern : List Char) : Option (List Segment) := do
  let segments ← (Text.splitWhere (· == '/') pattern).mapM readSegment?
  some (belowOnly (if free then .anyDepth :: segments else segments))

/-- The segments of all alternatives of a pattern; without a slash they are matched at every
    depth. -/
def alternatives? (anchored : Bool) (pattern : List Char) : Option (List (List Segment)) := do
  let patterns ← expand? [] [[]] none pattern
  patterns.mapM (segments? (!anchored && !pattern.contains '/'))

/-- A line without blanks at its end; a blank after a backslash stays. -/
def trimLine (t : List Char) : List Char :=
  if [' ', '\\'].isPrefixOf t.reverse then t else Text.trimEnd t

/-- Is the line a comment? -/
def isComment (t : List Char) : Bool := t.head? == some '#'

/-- A mark at the start of a line: does it keep, and what follows? -/
def splitMark : List Char → Bool × List Char
  | '\\' :: '!' :: t => (false, '!' :: t)
  | '\\' :: '#' :: t => (false, '#' :: t)
  | '!' :: t => (true, t)
  | t => (false, t)

/-- A slash at the start of a pattern: is there one, and what follows? -/
def splitAnchor : List Char → Bool × List Char
  | '/' :: t => (true, t)
  | t => (false, t)

/-- A slash at the end of a pattern: is there one, and what stands before it?  A backslash before
    the slash is dropped with it. -/
def splitEnd (t : List Char) : Bool × List Char :=
  match t.reverse with
  | '/' :: '\\' :: r => (true, r.reverse)
  | '/' :: r => (true, r.reverse)
  | _ => (false, t)

/-- Read a line; none if it is empty, a comment or malformed. -/
def readLine? (text : List Char) : Option Line :=
  let text := trimLine text
  if isComment text || text.isEmpty then none
  else
    let (keeps, text) := splitMark text
    let (anchored, text) := splitAnchor text
    let (directoriesOnly, text) := splitEnd text
    (alternatives? anchored text).map fun alternatives => { keeps, directoriesOnly, alternatives }

/-- A line without the carriage return at its end. -/
def dropReturn (t : List Char) : List Char :=
  if t.getLast? == some '\r' then t.dropLast else t

/-- The lines of a file as text.  The first line that is no text ends them. -/
def textLines : FileData → List (List Char)
  | .text t => Text.splitWhere (· == '\n') t
  | .binary bytes =>
    let lines := (Text.splitWhere (· == 10) bytes).map fun line => String.fromUTF8? ⟨line.toArray⟩
    (lines.takeWhile Option.isSome).filterMap (·.map String.toList)

/-- Read an ignore file.  Marks of the byte order in front of it do not count. -/
def readLines (data : FileData) : List Line :=
  match (textLines data).map dropReturn with
  | [] => []
  | first :: rest => (first.dropWhile (· == '\ufeff') :: rest).filterMap readLine?

/-! ### Matching -/

/-- A list and everything that is left of it after some of its items. -/
def tails : List (List Char) → List (List (List Char))
  | [] => [[]]
  | c :: cs => (c :: cs) :: tails cs

/-- Do the segments match all components? -/
def matchSegments : List Segment → List (List Char) → Bool
  | [], cs => cs.isEmpty
  | .anyDepth :: segments, cs => (tails cs).any (matchSegments segments)
  | .component items :: segments, c :: cs => Glob.matchItems items c && matchSegments segments cs
  | .component _ :: _, [] => false

/-- Does the line match what is at a location below its directory? -/
def Line.isMatch (line : Line) (relative : Location) (isDirectory : Bool) : Bool :=
  (isDirectory || !line.directoriesOnly) &&
    line.alternatives.any (matchSegments · (relative.map String.toList))

/-- Are the lines for leaving it out?  None if no line matches. -/
def verdict? (lines : List Line) (relative : Location) (isDirectory : Bool) : Option Bool :=
  (lines.reverse.find? (·.isMatch relative isDirectory)).map (!·.keeps)

end Ignore

end TwigStyle
