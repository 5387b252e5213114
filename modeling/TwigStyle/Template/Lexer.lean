import TwigStyle.Template.Delimiter
import TwigStyle.Template.Lexeme
import TwigStyle.Template.Operator
import TwigStyle.Token.Stream
import TwigStyle.Violation.Directive

/-!
# The lexer

A template is cut into tokens whose values concatenate to the source: blanks and line breaks are
tokens too, so one token can be replaced without touching anything else.

Cutting is driven by a stack of open constructs (`Frame`).  With an empty stack the lexer stands in
template text; a delimiter opens a variable or a block, a double quote opens a string in it, and an
interpolation in that string opens an expression again.  Every expression owns the brackets that are
open in it, together with the ternary `?` whose `:` has not come yet, so what is open around an
interpolation is out of reach inside it.

One `step` reads the constructs that start at the current character and always takes that
character: `step_rest_le` says that no more than the characters after it are left, which is why
`run` ends.
-/

namespace TwigStyle

/-! ### Open constructs -/

/-- What can wait for its other half in an expression. -/
inductive BracketShape where
  | round
  | square
  | curly
  /-- The `?` of a ternary. -/
  | ternary
deriving DecidableEq, Repr

namespace BracketShape

/-- The character that opens a shape. -/
def opener : BracketShape → Char
  | round => '('
  | square => '['
  | curly => '\x7b'
  | ternary => '?'

/-- The shape that an opening bracket opens. -/
def ofOpener? (c : Char) : Option BracketShape :=
  if c == '(' then some round
  else if c == '[' then some square
  else if c == '\x7b' then some curly
  else none

/-- The shape that a closing bracket closes. -/
def ofCloser? (c : Char) : Option BracketShape :=
  if c == ')' then some round
  else if c == ']' then some square
  else if c == '\x7d' then some curly
  else none

end BracketShape

/-- An open bracket, or a ternary that waits for its `:`. -/
structure OpenBracket where
  shape : BracketShape
  /-- The index of its token. -/
  index : Nat
  line : Nat
deriving DecidableEq, Repr

/-- A construct that is open, with the brackets open in it, innermost first. -/
inductive Frame where
  | variable (brackets : List OpenBracket)
  /-- A block also knows its name, once that was read. -/
  | block (name : Option (List Char)) (brackets : List OpenBracket)
  /-- A double-quoted string. -/
  | quote
  | interpolation (brackets : List OpenBracket)
deriving DecidableEq, Repr

namespace Frame

/-- How messages call an open construct. -/
def label : Frame → String
  | .variable _ => "variable"
  | .block _ _ => "block"
  | .quote => "string"
  | .interpolation _ => "interpolation"

/-- The brackets open in a construct. -/
def brackets : Frame → List OpenBracket
  | .variable bs => bs
  | .block _ bs => bs
  | .quote => []
  | .interpolation bs => bs

/-- The construct with other brackets open in it. -/
def withBrackets : Frame → List OpenBracket → Frame
  | .variable _, bs => .variable bs
  | .block name _, bs => .block name bs
  | .quote, _ => .quote
  | .interpolation _, bs => .interpolation bs

end Frame

/-- Is there an open bracket, ternaries apart? -/
def hasOpenBracket (bs : List OpenBracket) : Bool := bs.any (·.shape != .ternary)

/-- Forget ternaries without a `:` on top of the innermost bracket. -/
def dropTernaries (bs : List OpenBracket) : List OpenBracket :=
  bs.dropWhile (·.shape == .ternary)

/-! ### Failures -/

/-- Why a template cannot be cut into tokens. -/
inductive LexError where
  /-- No lexeme starts with this character. -/
  | unexpectedCharacter (character : Char) (line : Nat)
  /-- A comment that starts on this line is never closed. -/
  | unclosedComment (line : Nat)
  /-- A bracket is closed by another one, or closed without being open. -/
  | unclosedBracket (bracket : Char) (line : Nat)
  /-- The text ends inside a construct. -/
  | unexpectedEnd (frame : Frame) (line : Nat)
deriving DecidableEq, Repr

namespace LexError

/-- The line at fault. -/
def line : LexError → Nat
  | unexpectedCharacter _ line => line
  | unclosedComment line => line
  | unclosedBracket _ line => line
  | unexpectedEnd _ line => line

/-- The text of a failure. -/
def message : LexError → String
  | unexpectedCharacter c line =>
    let text := String.singleton c
    s!"Unexpected character \"{text}\" at line {line}."
  | unclosedComment line => s!"Unclosed comment at line {line}."
  | unclosedBracket c line =>
    let text := String.singleton c
    s!"Unclosed \"{text}\" at line {line}."
  | unexpectedEnd frame line =>
    let state := frame.label
    s!"Unexpected end of file inside {state} at line {line}."

end LexError

/-! ### The state -/

/-- What the lexer knows between two characters. -/
structure Lexer where
  tokens : Array Token := #[]
  /-- Where the next character stands. -/
  position : Position := Position.start
  /-- The open constructs, innermost first. -/
  frames : List Frame := []
  /-- Inside a verbatim body. -/
  verbatim : Bool := false
  /-- The suppressions found so far. -/
  directives : List ViolationId := []
deriving Repr

/-- A failure and the state in which it happened. -/
structure LexFailure where
  error : LexError
  lexer : Lexer

/-- A lexeme of an expression or a string: its first character and `more` after it. -/
structure Lexed where
  kind : TokenKind
  /-- How many characters follow the first. -/
  more : Nat
  /-- The open constructs afterwards. -/
  frames : List Frame
  /-- The index of the bracket that it closes. -/
  partner : Option Nat := none

namespace Lexer

/-- Append a token. -/
def emit (s : Lexer) (kind : TokenKind) (value : List Char) : Lexer :=
  { s with
    tokens := s.tokens.push { kind, value, position := s.position }
    position := s.position.after value }

/-- Append tokens, one after the other. -/
def emitAll (s : Lexer) (pieces : List (TokenKind × List Char)) : Lexer :=
  pieces.foldl (fun s (kind, value) => s.emit kind value) s

/-- Join two brackets to each other. -/
def pair (s : Lexer) (first second : Nat) : Lexer :=
  { s with
    tokens := (s.tokens.modify first fun t => { t with related := some second }).modify second
      fun t => { t with related := some first } }

/-- The last token that is no layout. -/
def lastMeaningful? (s : Lexer) : Option Token :=
  s.tokens.findRev? fun t => !TokenKind.layout.contains t.kind

/-- Does a name right here belong to an attribute or a filter (after `.` or `|`)? -/
def namesAttribute (s : Lexer) : Bool :=
  match s.lastMeaningful? with
  | none => false
  | some t => t.isThe .punctuation "." || t.isThe .punctuation "|"

/-! ### Expressions -/

/-- The layout at `c :: t`, if there is one. -/
def layout? (c : Char) (t : List Char) : Option (TokenKind × Nat) :=
  if Text.isLayout c then
    let (cls, more) := Lexeme.layoutAt c t
    some (cls.codeKind, more)
  else none

/-- The operator at `c :: t`: how many characters follow its first.  Right after `.` or `|` a word
    is a name and no operator. -/
def operator? (s : Lexer) (table : OperatorTable) (c : Char) (t : List Char) : Option Nat :=
  match table.after? (c :: t) with
  | none => none
  | some rest =>
    if Text.isAsciiLetter c && s.namesAttribute then none
    else some (t.length - rest.length)

/-- A name is the name of its block if it is the first one directly in it. -/
def nameLexed (frame : Frame) (outer : List Frame) (c : Char) (t : List Char) : Lexed :=
  let more := Lexeme.runLength Lexeme.continuesName t
  match frame with
  | .block none bs => ⟨.blockName, more, .block (some (c :: t.take more)) bs :: outer, none⟩
  | frame => ⟨.name, more, frame :: outer, none⟩

/-- A closing bracket: it must close the innermost bracket of its expression. -/
def closer (s : Lexer) (frame : Frame) (outer : List Frame) (c : Char) (shape : BracketShape) :
    Except LexError Lexed :=
  match dropTernaries frame.brackets with
  | [] => .error (.unclosedBracket c s.position.line)
  | b :: bs =>
    if b.shape = shape then
      .ok ⟨.punctuation, 0, frame.withBrackets bs :: outer, some b.index⟩
    else .error (.unclosedBracket b.shape.opener b.line)

/-- A bracket or ternary that opens here. -/
def openHere (s : Lexer) (shape : BracketShape) : OpenBracket :=
  ⟨shape, s.tokens.size, s.position.line⟩

/-- Punctuation at `c`; none if `c` is no punctuation. -/
def punctuation? (s : Lexer) (frame : Frame) (outer : List Frame) (c : Char) :
    Option (Except LexError Lexed) :=
  let bs := frame.brackets
  if c == '?' then
    some (.ok ⟨.operator, 0, frame.withBrackets (s.openHere .ternary :: bs) :: outer, none⟩)
  else if c == ':' then
    match bs with
    | ⟨.ternary, _, _⟩ :: rest =>
      -- The separator of a pending ternary.
      some (.ok ⟨.operator, 0, frame.withBrackets rest :: outer, none⟩)
    | _ => some (.ok ⟨.punctuation, 0, frame :: outer, none⟩)
  else if c == ',' then
    some (.ok ⟨.punctuation, 0, frame.withBrackets (dropTernaries bs) :: outer, none⟩)
  else if c == '.' || c == '|' then
    some (.ok ⟨.punctuation, 0, frame :: outer, none⟩)
  else
    match BracketShape.ofOpener? c, BracketShape.ofCloser? c with
    | some shape, _ =>
      some (.ok ⟨.punctuation, 0, frame.withBrackets (s.openHere shape :: bs) :: outer, none⟩)
    | none, some shape => some (s.closer frame outer c shape)
    | none, none => none

/-- The lexeme at `c :: t` in the expression of `frame`. -/
def expression (s : Lexer) (table : OperatorTable) (frame : Frame) (outer : List Frame) (c : Char)
    (t : List Char) : Except LexError Lexed :=
  match layout? c t with
  | some (kind, more) => .ok ⟨kind, more, frame :: outer, none⟩
  | none =>
    if (Text.after? "...".toList (c :: t)).isSome then .ok ⟨.spread, 2, frame :: outer, none⟩
    else if (Text.after? "=>".toList (c :: t)).isSome then .ok ⟨.arrow, 1, frame :: outer, none⟩
    else
      match s.operator? table c t with
      | some more => .ok ⟨.operator, more, frame :: outer, none⟩
      | none =>
        if Lexeme.startsName c then .ok (nameLexed frame outer c t)
        else if c.isDigit then
          .ok ⟨.number, Lexeme.numberLength (c :: t) - 1, frame :: outer, none⟩
        else
          match s.punctuation? frame outer c with
          | some result => result
          | none =>
            if c == '\'' then
              match Lexeme.singleQuotedLength? t with
              | some more => .ok ⟨.string, more, frame :: outer, none⟩
              | none => .error (.unexpectedCharacter c s.position.line)
            else if c == '"' then .ok ⟨.quoteStart, 0, .quote :: frame :: outer, none⟩
            else .error (.unexpectedCharacter c s.position.line)

/-- The lexeme at `c :: t` inside the construct of `frame`. -/
def inside (s : Lexer) (table : OperatorTable) (frame : Frame) (outer : List Frame) (c : Char)
    (t : List Char) : Except LexError Lexed :=
  match frame with
  | .quote =>
    if c == '"' then .ok ⟨.quoteEnd, 0, outer, none⟩
    else if c == '#' && t.head? == some '\x7b' then
      .ok ⟨.interpolationStart, 1, .interpolation [] :: .quote :: outer, none⟩
    else .ok ⟨.string, Lexeme.literalLength (c :: t) - 1, .quote :: outer, none⟩
  | .interpolation bs =>
    if c == '\x7d' && !hasOpenBracket bs then .ok ⟨.interpolationEnd, 0, outer, none⟩
    else s.expression table frame outer c t
  | .variable bs =>
    match if hasOpenBracket bs then none else Delimiter.variableEndLength? (c :: t) with
    | some n => .ok ⟨.variableEnd, n - 1, outer, none⟩
    | none => s.expression table frame outer c t
  | .block _ bs =>
    match if hasOpenBracket bs then none else Delimiter.blockEndLength? (c :: t) with
    | some n => .ok ⟨.blockEnd, n - 1, outer, none⟩
    | none => s.expression table frame outer c t

/-- Does leaving this construct start a verbatim body? -/
def startsVerbatim (frame : Frame) (kind : TokenKind) : Bool :=
  match frame, kind with
  | .block (some name) _, .blockEnd => name == "verbatim".toList || name == "raw".toList
  | _, _ => false

/-- Take a lexeme. -/
def take (s : Lexer) (frame : Frame) (lexed : Lexed) (c : Char) (t : List Char) : Lexer :=
  let index := s.tokens.size
  let s := { s with
    frames := lexed.frames
    verbatim := s.verbatim || startsVerbatim frame lexed.kind }
  let s := s.emit lexed.kind (c :: t.take lexed.more)
  match lexed.partner with
  | none => s
  | some first => s.pair first index

/-! ### Template text -/

/-- A comment: its start, its body and its end, with the suppressions in it. -/
def comment (s : Lexer) (start : List Char) (t : List Char) :
    Except LexFailure (Lexer × List Char) :=
  let line := s.position.line
  let s := s.emit .commentStart start
  match Delimiter.commentBody? t with
  | none => .error ⟨.unclosedComment line, s⟩
  | some (body, stop, rest) =>
    let s := { s with directives := s.directives ++ (Directive.parse? body line).getD [] }
    let s := s.emitAll ((Lexeme.layoutPieces body).map fun (cls, v) => (cls.commentKind, v))
    .ok (s.emit .commentEnd stop, rest)

/-- Template text up to the next delimiter, and that delimiter. -/
def data (s : Lexer) (t : List Char) : Except LexFailure (Lexer × List Char) :=
  let (before, found) := Delimiter.find s.verbatim 0 t
  let s := s.emitAll ((Lexeme.layoutPieces before).map fun (cls, v) => (cls.codeKind, v))
  match found with
  | none => .ok (s, [])
  | some (.variable, value, rest) =>
    .ok ({ s.emit .variableStart value with frames := [.variable []], verbatim := false }, rest)
  | some (.block, value, rest) =>
    .ok ({ s.emit .blockStart value with frames := [.block none []], verbatim := false }, rest)
  | some (.comment, value, rest) => { s with verbatim := false }.comment value rest

/-- Read what starts at `c :: t`. -/
def step (s : Lexer) (table : OperatorTable) (c : Char) (t : List Char) :
    Except LexFailure (Lexer × List Char) :=
  match s.frames with
  | [] => s.data (c :: t)
  | frame :: outer =>
    match s.inside table frame outer c t with
    | .error e => .error ⟨e, s⟩
    | .ok lexed => .ok (s.take frame lexed c t, t.drop lexed.more)

/-! ### Progress -/

theorem trimMarker_length_le (t : List Char) : (Delimiter.trimMarker t).2.length ≤ t.length := by
  cases t with
  | nil => simp [Delimiter.trimMarker]
  | cons c t =>
    simp only [Delimiter.trimMarker]
    split <;> simp

theorem delimiterAt_length_lt {t : List Char} {k : Construct} {value rest : List Char}
    (h : Delimiter.at? t = some (k, value, rest)) : rest.length < t.length := by
  unfold Delimiter.at? at h
  split at h
  · rename_i c t
    split at h
    · simp at h
    · simp only [Option.some.injEq, Prod.mk.injEq] at h
      obtain ⟨_, _, rfl⟩ := h
      have := trimMarker_length_le t
      simp only [List.length_cons]
      omega
  · simp at h

theorem find_length_lt (verbatim : Bool) {skip : Nat} {t : List Char} {before : List Char}
    {k : Construct} {value rest : List Char}
    (h : Delimiter.find verbatim skip t = (before, some (k, value, rest))) :
    rest.length < t.length := by
  induction t generalizing skip before with
  | nil => simp [Delimiter.find] at h
  | cons c t ih =>
    have step : ∀ {skip before'}, Delimiter.find verbatim skip t = (before', some (k, value, rest)) →
        rest.length < (c :: t).length := fun h => Nat.lt_succ_of_lt (ih h)
    cases skip with
    | succ skip =>
      simp only [Delimiter.find, Prod.mk.injEq] at h
      exact step (Prod.ext rfl h.2)
    | zero =>
      unfold Delimiter.find at h
      split at h
      · simp only [Prod.mk.injEq] at h
        exact step (Prod.ext rfl h.2)
      · rename_i k' value' rest' hat
        split at h
        · simp only [Prod.mk.injEq] at h
          exact step (Prod.ext rfl h.2)
        · simp only [Prod.mk.injEq, Option.some.injEq] at h
          obtain ⟨_, rfl, rfl, rfl⟩ := h
          exact delimiterAt_length_lt hat

theorem commentEndAt_length_lt {t value rest : List Char}
    (h : Delimiter.commentEndAt? t = some (value, rest)) : rest.length < t.length := by
  unfold Delimiter.commentEndAt? at h
  split at h
  · simp only [Option.some.injEq, Prod.mk.injEq] at h
    obtain ⟨_, rfl⟩ := h
    simp only [List.length_cons]
    omega
  · split at h
    · simp only [Option.some.injEq, Prod.mk.injEq] at h
      obtain ⟨_, rfl⟩ := h
      simp only [List.length_cons]
      omega
    · simp at h
  · simp at h

theorem commentBody_length_lt {t body stop rest : List Char}
    (h : Delimiter.commentBody? t = some (body, stop, rest)) : rest.length < t.length := by
  induction t generalizing body with
  | nil => simp [Delimiter.commentBody?] at h
  | cons c t ih =>
    unfold Delimiter.commentBody? at h
    split at h
    · rename_i value rest' hend
      simp only [Option.some.injEq, Prod.mk.injEq] at h
      obtain ⟨_, rfl, rfl⟩ := h
      exact commentEndAt_length_lt hend
    · split at h
      · simp at h
      · rename_i body' value' rest' hbody
        simp only [Option.some.injEq, Prod.mk.injEq] at h
        obtain ⟨_, rfl, rfl⟩ := h
        exact Nat.lt_succ_of_lt (ih hbody)

theorem comment_rest_lt {s s' : Lexer} {start t rest : List Char}
    (h : s.comment start t = .ok (s', rest)) : rest.length < t.length := by
  unfold comment at h
  simp only at h
  split at h
  · simp at h
  · rename_i body stop rest' hbody
    simp only [Except.ok.injEq, Prod.mk.injEq] at h
    obtain ⟨_, rfl⟩ := h
    exact commentBody_length_lt hbody

theorem data_rest_lt {s s' : Lexer} {t rest : List Char} (ht : t ≠ [])
    (h : s.data t = .ok (s', rest)) : rest.length < t.length := by
  unfold data at h
  rcases hfind : Delimiter.find s.verbatim 0 t with ⟨before, found⟩
  simp only [hfind] at h
  split at h
  · simp only [Except.ok.injEq, Prod.mk.injEq] at h
    obtain ⟨_, rfl⟩ := h
    exact List.length_pos_iff.2 ht
  · simp only [Except.ok.injEq, Prod.mk.injEq] at h
    obtain ⟨_, rfl⟩ := h
    exact find_length_lt _ hfind
  · simp only [Except.ok.injEq, Prod.mk.injEq] at h
    obtain ⟨_, rfl⟩ := h
    exact find_length_lt _ hfind
  · exact Nat.lt_trans (comment_rest_lt h) (find_length_lt _ hfind)

/-- A step leaves no more than the characters after the first. -/
theorem step_rest_le {s s' : Lexer} {table : OperatorTable} {c : Char} {t rest : List Char}
    (h : s.step table c t = .ok (s', rest)) : rest.length ≤ t.length := by
  unfold step at h
  split at h
  · exact Nat.le_of_lt_succ (data_rest_lt (by simp) h)
  · split at h
    · simp at h
    · simp only [Except.ok.injEq, Prod.mk.injEq] at h
      obtain ⟨_, rfl⟩ := h
      rw [List.length_drop]
      exact Nat.sub_le _ _

/-- Read a text to its end. -/
def run (table : OperatorTable) (s : Lexer) : List Char → Except LexFailure Lexer
  | [] => .ok s
  | c :: t =>
    match _h : s.step table c t with
    | .error e => .error e
    | .ok (s', rest) => run table s' rest
termination_by t => t.length
decreasing_by exact Nat.lt_succ_of_le (step_rest_le _h)

/-- End the text: the end of file comes last, and nothing may be open. -/
def finish (s : Lexer) : Except LexFailure Lexer :=
  let s := s.emit .eof []
  match s.frames with
  | [] => .ok s
  | frame :: _ => .error ⟨.unexpectedEnd frame s.position.line, s⟩

/-- Read a whole source, keeping the state in which a failure happens. -/
def scan (table : OperatorTable) (source : List Char) : Except LexFailure Lexer :=
  match run table {} source with
  | .error e => .error e
  | .ok s => s.finish

end Lexer

/-- A template that was cut into tokens. -/
structure Template where
  stream : TokenStream
  /-- The suppressions of its comments, in order. -/
  directives : List ViolationId
deriving Repr

/-- Cut a source into tokens. -/
def tokenize (table : OperatorTable) (source : List Char) : Except LexError Template :=
  match Lexer.scan table source with
  | .ok s => .ok ⟨⟨s.tokens, false⟩, s.directives⟩
  | .error e => .error e.error

end TwigStyle
