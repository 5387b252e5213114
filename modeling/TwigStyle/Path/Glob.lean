import TwigStyle.Path.Basic

/-!
# Path patterns

A pattern is matched against the whole text of a path.  `?` stands for one character and `*` for any
row of characters, slashes and leading dots included; `[…]` and `[!…]` stand for one character in or
not in a set of characters and ranges; `**` is a whole component of its own and stands for any number
of components.  Every other character stands for itself: there are no escapes.

A pattern is read in one pass over its characters (`Glob.readFrom`), and the first mistake from the
left is the one that is reported.
-/

namespace TwigStyle

namespace Glob

/-- A member of a set of characters. -/
inductive CharSpan where
  | one (c : Char)
  /-- All characters between two, both included. -/
  | range (first last : Char)
deriving DecidableEq, Repr

/-- Is the character in the span? -/
def CharSpan.contains : CharSpan → Char → Bool
  | one c, d => c == d
  | range first last, d => first ≤ d && d ≤ last

/-- The spans of the text between square brackets. -/
def charSpans : List Char → List CharSpan
  | first :: '-' :: last :: t => .range first last :: charSpans t
  | c :: t => .one c :: charSpans t
  | [] => []

/-- A piece of a pattern. -/
inductive Item where
  /-- This very character. -/
  | char (c : Char)
  | anyChar
  /-- Any row of characters. -/
  | anyRun
  /-- Any number of components. -/
  | anyComponents
  | within (spans : List CharSpan)
  | except (spans : List CharSpan)
deriving DecidableEq, Repr

/-! ### Reading -/

/-- What can be wrong with a pattern. -/
inductive Fault where
  /-- Three stars in a row. -/
  | starRow
  /-- Two stars that are not a component of their own. -/
  | partialComponent
  /-- A set of characters that is never closed. -/
  | openSet
deriving DecidableEq, Repr

/-- The text of a fault. -/
def Fault.message : Fault → String
  | starRow => "wildcards are either regular `*` or recursive `**`"
  | partialComponent => "recursive wildcards must form a single path component"
  | openSet => "invalid range pattern"

/-- Why a text is no pattern, and where, counted in characters. -/
structure Error where
  position : Nat
  fault : Fault
deriving DecidableEq, Repr

/-- The text of an error. -/
def Error.message (e : Error) : String :=
  let position := e.position
  s!"Pattern syntax error near position {position}: " ++ e.fault.message

/-- A set of characters that is being read. -/
structure OpenSet where
  start : Nat
  negated : Bool
  chars : List Char := []

/-- The item of a set whose closing bracket has come. -/
def OpenSet.close (s : OpenSet) : Item :=
  if s.negated then .except (charSpans s.chars) else .within (charSpans s.chars)

/-- Can a component start after this character? -/
def startsComponent : Option Char → Bool
  | none => true
  | some c => c == '/'

/-- Put an item in front of the items read after it. -/
def prepend (item : Item) : Except Error (List Item) → Except Error (List Item)
  | .ok items => .ok (item :: items)
  | .error e => .error e

/-- Read the pattern from a position on.  `previous` is the character before it, and `set` the set
    of characters that is open; its first character is a member even if it is a bracket. -/
def readFrom (set : Option OpenSet) (position : Nat) (previous : Option Char) :
    List Char → Except Error (List Item)
  | [] =>
    match set with
    | some s => .error ⟨s.start, .openSet⟩
    | none => .ok []
  | c :: t =>
    match set with
    | some s =>
      if c == ']' && !s.chars.isEmpty then prepend s.close (readFrom none (position + 1) (some c) t)
      else readFrom (some { s with chars := s.chars ++ [c] }) (position + 1) (some c) t
    | none =>
      match c, t with
      | '?', t => prepend .anyChar (readFrom none (position + 1) (some c) t)
      | '[', '!' :: t => readFrom (some ⟨position, true, []⟩) (position + 2) (some '!') t
      | '[', t => readFrom (some ⟨position, false, []⟩) (position + 1) (some c) t
      | '*', '*' :: '*' :: _ => .error ⟨position + 2, .starRow⟩
      | '*', '*' :: t =>
        if !startsComponent previous then .error ⟨position - 1, .partialComponent⟩
        else match t with
          | [] => .ok [.anyComponents]
          | '/' :: t => prepend .anyComponents (readFrom none (position + 3) (some '/') t)
          | _ => .error ⟨position + 2, .partialComponent⟩
      | '*', t => prepend .anyRun (readFrom none (position + 1) (some c) t)
      | c, t => prepend (.char c) (readFrom none (position + 1) (some c) t)

/-! ### Matching -/

/-- A text and everything that is left of it after some of its characters. -/
def suffixes : List Char → List (List Char)
  | [] => [[]]
  | c :: t => (c :: t) :: suffixes t

/-- What is left of a text after any number of components, each with its slash, or after all of
    it. -/
def componentSuffixes (t : List Char) : List (List Char) :=
  t :: afterSlashes t
where
  /-- What follows each slash, and the end. -/
  afterSlashes : List Char → List (List Char)
    | [] => [[]]
    | c :: t => if c == '/' then t :: afterSlashes t else afterSlashes t

/-- Do the items match the whole text? -/
def matchItems : List Item → List Char → Bool
  | [], t => t.isEmpty
  | .anyRun :: items, t => (suffixes t).any (matchItems items)
  | .anyComponents :: items, t => (componentSuffixes t).any (matchItems items)
  | .char c :: items, d :: t => c == d && matchItems items t
  | .anyChar :: items, _ :: t => matchItems items t
  | .within spans :: items, d :: t => spans.any (·.contains d) && matchItems items t
  | .except spans :: items, d :: t => !spans.any (·.contains d) && matchItems items t
  | _ :: _, [] => false

end Glob

/-- A pattern of paths. -/
structure Glob where
  /-- The pattern as it was written. -/
  text : String
  items : List Glob.Item
deriving DecidableEq, Repr

namespace Glob

/-- Read a pattern. -/
def parse (text : String) : Except Error Glob :=
  match readFrom none 0 none text.toList with
  | .ok items => .ok ⟨text, items⟩
  | .error e => .error e

/-- Read patterns; the first one that is wrong decides. -/
def parseAll : List String → Except Error (List Glob)
  | [] => .ok []
  | text :: texts =>
    match parse text, parseAll texts with
    | .error e, _ => .error e
    | .ok _, .error e => .error e
    | .ok g, .ok gs => .ok (g :: gs)

/-- Does the pattern match the path? -/
def isMatch (g : Glob) (p : Path) : Bool := matchItems g.items p.text.toList

/-- Does one of the patterns match the path? -/
def anyMatch (gs : List Glob) (p : Path) : Bool := gs.any (·.isMatch p)

end Glob

end TwigStyle
