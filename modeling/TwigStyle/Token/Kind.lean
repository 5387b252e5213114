/-!
# Kinds of tokens

Layout (spaces, tabs, line breaks) exists twice, once for template code and once for comment bodies,
so that the layout of a comment never collides with the layout of code.
-/

namespace TwigStyle

/-- What a token is. -/
inductive TokenKind where
  /-- The end of the file: always last, with an empty value. -/
  | eof
  /-- Literal template text outside of any delimiter. -/
  | text
  /-- A run of spaces. -/
  | spaces
  /-- A run of tabs. -/
  | tabs
  /-- A line break. -/
  | lineBreak
  | variableStart
  | variableEnd
  | blockStart
  | blockEnd
  /-- The tag name right after a block start. -/
  | blockName
  /-- Any other name. -/
  | name
  | number
  /-- A single-quoted string, or the literal part of a double-quoted one. -/
  | string
  /-- An operator, including the bare ternary `?` and its `:`. -/
  | operator
  | punctuation
  | arrow
  | spread
  | quoteStart
  | quoteEnd
  | interpolationStart
  | interpolationEnd
  | commentStart
  | commentEnd
  | commentText
  | commentSpaces
  | commentTabs
  | commentLineBreak
deriving DecidableEq, Repr, Inhabited

namespace TokenKind

/-- Every kind, in the order of declaration. -/
def all : List TokenKind :=
  [eof, text, spaces, tabs, lineBreak, variableStart, variableEnd, blockStart, blockEnd, blockName,
    name, number, string, operator, punctuation, arrow, spread, quoteStart, quoteEnd,
    interpolationStart, interpolationEnd, commentStart, commentEnd, commentText, commentSpaces,
    commentTabs, commentLineBreak]

/-- Spaces and tabs of template code. -/
def indent : List TokenKind := [spaces, tabs]

/-- All layout, in code and in comments. -/
def layout : List TokenKind :=
  [spaces, tabs, lineBreak, commentSpaces, commentTabs, commentLineBreak]

/-- Every kind that belongs to a comment. -/
def comment : List TokenKind :=
  [commentStart, commentEnd, commentText, commentSpaces, commentTabs, commentLineBreak]

/-- Kinds that carry no meaning for the template: layout and comments. -/
def empty : List TokenKind :=
  [spaces, tabs, lineBreak, commentStart, commentEnd, commentText, commentSpaces, commentTabs,
    commentLineBreak]

/-- The name of a kind, which is also the token part of a violation id. -/
def label : TokenKind → String
  | eof => "Eof"
  | text => "Text"
  | spaces => "Whitespace"
  | tabs => "Tab"
  | lineBreak => "Eol"
  | variableStart => "VarStart"
  | variableEnd => "VarEnd"
  | blockStart => "BlockStart"
  | blockEnd => "BlockEnd"
  | blockName => "BlockName"
  | name => "Name"
  | number => "Number"
  | string => "String"
  | operator => "Operator"
  | punctuation => "Punctuation"
  | arrow => "Arrow"
  | spread => "Spread"
  | quoteStart => "DqStringStart"
  | quoteEnd => "DqStringEnd"
  | interpolationStart => "InterpolationStart"
  | interpolationEnd => "InterpolationEnd"
  | commentStart => "CommentStart"
  | commentEnd => "CommentEnd"
  | commentText => "CommentText"
  | commentSpaces => "CommentWhitespace"
  | commentTabs => "CommentTab"
  | commentLineBreak => "CommentEol"

/-- The kind with a given name. -/
def ofLabel? (s : String) : Option TokenKind := all.find? (·.label == s)

end TokenKind

end TwigStyle
