import TwigStyle.Text.Blank

/-!
# Delimiters

Template text ends at a delimiter: two characters that open a variable, a block or a comment, and
an optional trim marker.  Delimiters do not overlap: in a row of three opening braces the first two
are one and the third is not looked at together with the second.

In a verbatim body every delimiter is text, except the one of the tag that ends the body.
-/

namespace TwigStyle

/-- What a delimiter opens. -/
inductive Construct where
  | variable
  | block
  | comment
deriving DecidableEq, Repr

namespace Delimiter

/-- The marker that trims blanks around a delimiter. -/
def isTrimMarker (c : Char) : Bool := c == '-' || c == '~'

/-- An optional trim marker, and the text after it. -/
def trimMarker : List Char → List Char × List Char
  | c :: t => if isTrimMarker c then ([c], t) else ([], c :: t)
  | [] => ([], [])

/-- The construct that the second character of a delimiter opens. -/
def construct? (c : Char) : Option Construct :=
  if c == '\x7b' then some .variable
  else if c == '%' then some .block
  else if c == '#' then some .comment
  else none

/-- The delimiter at the start of a text: what it opens, its spelling, and the text after it. -/
def at? : List Char → Option (Construct × List Char × List Char)
  | '\x7b' :: c :: t =>
    match construct? c with
    | none => none
    | some k =>
      let (marker, rest) := trimMarker t
      some (k, '\x7b' :: c :: marker, rest)
  | _ => none

/-- The text after an optional trim marker and `%` with a closing brace. -/
def afterBlockEnd? (t : List Char) : Option (List Char) :=
  Text.after? ['%', '\x7d'] (trimMarker t).2

/-- Does the text start with the tag that ends a verbatim body? -/
def endsVerbatim (t : List Char) : Bool :=
  match Text.after? ['\x7b', '%'] t with
  | none => false
  | some t =>
    let t := (trimMarker t).2.dropWhile Text.isBlank
    match (Text.after? "endverbatim".toList t).or (Text.after? "endraw".toList t) with
    | none => false
    | some t => (afterBlockEnd? (t.dropWhile Text.isBlank)).isSome

/-- The text before the next delimiter that counts, and that delimiter.  The first `skip`
    characters belong to a delimiter that does not count. -/
def find (verbatim : Bool) : (skip : Nat) → List Char →
    List Char × Option (Construct × List Char × List Char)
  | _, [] => ([], none)
  | skip + 1, c :: t =>
    let (before, found) := find verbatim skip t
    (c :: before, found)
  | 0, c :: t =>
    match at? (c :: t) with
    | none =>
      let (before, found) := find verbatim 0 t
      (c :: before, found)
    | some (k, value, rest) =>
      if verbatim && !endsVerbatim (c :: t) then
        let (before, found) := find verbatim (value.length - 1) t
        (c :: before, found)
      else ([], some (k, value, rest))

/-- The end of a comment at the start of a text, and the text after it. -/
def commentEndAt? : List Char → Option (List Char × List Char)
  | '#' :: '\x7d' :: t => some (['#', '\x7d'], t)
  | c :: '#' :: '\x7d' :: t => if isTrimMarker c then some ([c, '#', '\x7d'], t) else none
  | _ => none

/-- The body of a comment, its end, and the text after it. -/
def commentBody? : List Char → Option (List Char × List Char × List Char)
  | [] => none
  | c :: t =>
    match commentEndAt? (c :: t) with
    | some (value, rest) => some ([], value, rest)
    | none =>
      match commentBody? t with
      | none => none
      | some (body, value, rest) => some (c :: body, value, rest)

/-- The end of a block at the start of a text: its length. -/
def blockEndLength? : List Char → Option Nat
  | '%' :: '\x7d' :: _ => some 2
  | c :: '%' :: '\x7d' :: _ => if isTrimMarker c then some 3 else none
  | _ => none

/-- The end of a variable at the start of a text: its length. -/
def variableEndLength? : List Char → Option Nat
  | '\x7d' :: '\x7d' :: _ => some 2
  | c :: '\x7d' :: '\x7d' :: _ => if isTrimMarker c then some 3 else none
  | _ => none

end Delimiter

end TwigStyle
