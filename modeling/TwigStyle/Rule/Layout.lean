import TwigStyle.Rule.Finding

/-!
# Layout of lines

Three checks on the layout of a file: no blanks at the end of a line, exactly one line break at the
end of the file, and no tabs in the indentation.
-/

namespace TwigStyle

namespace Layout

/-- Spaces and tabs, in code and in comments. -/
def blanks : List TokenKind := [.spaces, .tabs, .commentSpaces, .commentTabs]

/-- Empty the tokens from `start` up to, not including, `stop`. -/
def clear (start stop : Nat) : List Command :=
  (List.range' start (stop - start)).map fun j => .replace j (.text [])

/-- Several edits as one change. -/
def atOnce (edits : List Command) : List Command := .beginSet :: edits ++ [.endSet]

/-! ### Blanks at the end of a line -/

/-- The kinds that end a line. -/
def lineEnds : List TokenKind := [.lineBreak, .commentLineBreak, .eof]

/-- The start of the blanks right before a token. -/
def blanksStart (s : TokenStream) (i : Nat) : Nat :=
  match s.previousOutside blanks i with
  | none => 0
  | some j => j + 1

/-- Blanks before the end of a line are reported on the first of them. -/
def trailingSpace (s : TokenStream) (i : Nat) : List Finding :=
  if i == 0 || !s.kindIn i lineEnds then []
  else
    let start := blanksStart s i
    if start == i then []
    else match s.get? start with
      | none => []
      | some first =>
        [{ index := start
           token := first
           message := "A line should not end with blank space(s)."
           repair := some (atOnce (clear start i)) }]

/-! ### The end of the file -/

/-- The kinds that blank lines are made of. -/
def blankLines : List TokenKind := [.lineBreak, .spaces, .tabs]

/-- The number of line breaks from `start` up to, not including, `stop`. -/
def lineBreaks (s : TokenStream) (start stop : Nat) : Nat :=
  (s.tokens.extract start stop).toList.countP (·.kind == .lineBreak)

/-- Make the blank lines from `start` to the end of the file at `stop` one line break. -/
def endLine (start stop : Nat) : List Command :=
  if start < stop then atOnce (.replace start .lineBreak :: clear (start + 1) stop)
  else [.append (start - 1) .lineBreak]

/-- A file ends with one line break, unless it is empty; one of blank lines only should be
    empty. -/
def blankEof (s : TokenStream) (i : Nat) : List Finding :=
  match s.get? i with
  | none => []
  | some token =>
    if i == 0 || token.kind != .eof then []
    else match s.previousOutside blankLines i with
      | none =>
        [{ index := i
           token
           message := "A file must not contain only blank lines."
           repair := some (atOnce (clear 0 i)) }]
      | some last =>
        let found := lineBreaks s (last + 1) i
        if found == 1 then []
        else
          [{ index := i
             token
             message := s!"A file must end with 1 blank line; found {found}."
             repair := some (endLine (last + 1) i) }]

/-! ### Indentation -/

/-- Does a token stand in the indentation of its line? -/
def inIndentation (s : TokenStream) (i : Nat) : Bool :=
  match s.previousOutside blanks i with
  | none => true
  | some j => s.kindIn j [.lineBreak, .commentLineBreak]

/-- Tabs in the indentation; each becomes `width` spaces. -/
def indent (width : Nat) (s : TokenStream) (i : Nat) : List Finding :=
  match s.get? i with
  | none => []
  | some token =>
    if (token.kind == .tabs || token.kind == .commentTabs) && inIndentation s i then
      [{ index := i
         token
         message := "A file must not be indented with tabs."
         repair := some [.replace i (.text (List.replicate (width * token.value.length) ' '))] }]
    else []

end Layout

end TwigStyle
