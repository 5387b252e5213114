import TwigStyle.Token.Basic

/-!
# Token streams

The tokens of one file in order, with the searches that rules are made of.  Scans are bounded by a
number of steps computed from the stream, so they all end; `enclosingBracket` follows the partner
links of closing brackets and says when a link leads out of the stream or in circles, which happens
only in a stream put together from tokens of other streams.
-/

namespace TwigStyle

/-- The tokens of one file. -/
structure TokenStream where
  tokens : Array Token := #[]
  /-- A read-only stream takes no further token. -/
  readOnly : Bool := false
deriving DecidableEq, Repr, Inhabited

/-- Why a stream refuses a request. -/
inductive StreamError where
  | outOfRange (index size : Nat)
  | foreignToken (value : List Char) (line : Nat)
  | readOnly
  | afterEof
deriving DecidableEq, Repr

namespace StreamError

/-- The text of a refusal. -/
def message : StreamError → String
  | outOfRange index size => s!"token index {index} is out of range (stream has {size} tokens)"
  | foreignToken value line =>
    let text := String.ofList value
    s!"token `{text}` at line {line} does not belong to this stream"
  | readOnly => "token stream is read-only"
  | afterEof => "cannot add a token after the end of file"

end StreamError

/-- How the search for the enclosing bracket ends. -/
inductive BracketSearch where
  | found (index : Nat)
  | absent
  /-- A partner link leads past the end of the stream. -/
  | outside (index : Nat)
  /-- The partner links lead in circles. -/
  | endless
deriving DecidableEq, Repr

/-- The index found, if any. -/
def BracketSearch.index? : BracketSearch → Option Nat
  | found i => some i
  | _ => none

namespace TokenStream

/-- Number of tokens, the end of file included. -/
def size (s : TokenStream) : Nat := s.tokens.size

/-- The token at an index. -/
def get? (s : TokenStream) (i : Nat) : Option Token := s.tokens[i]?

/-- The token at an index, or why there is none. -/
def get (s : TokenStream) (i : Nat) : Except StreamError Token :=
  match s.tokens[i]? with
  | some t => .ok t
  | none => .error (.outOfRange i s.size)

/-- Has the token at an index one of these kinds? -/
def kindIn (s : TokenStream) (i : Nat) (kinds : List TokenKind) : Bool :=
  (s.tokens[i]?).any fun t => kinds.contains t.kind

/-- The partner of the bracket at an index. -/
def related (s : TokenStream) (i : Nat) : Option Nat := (s.tokens[i]?).bind (·.related)

/-- The values of all tokens, in order. -/
def values (s : TokenStream) : Array (List Char) := s.tokens.map (·.value)

/-- The source text: all values, concatenated. -/
def source (s : TokenStream) : List Char := (s.tokens.toList.map (·.value)).flatten

/-- The last token is the end of file, and it is the only one. -/
def isComplete (s : TokenStream) : Bool :=
  (s.tokens.back?).any (·.kind == .eof) && s.tokens.toList.countP (·.kind == .eof) == 1

/-- Append a token. -/
def add (s : TokenStream) (t : Token) : Except StreamError TokenStream :=
  if s.readOnly then .error .readOnly
  else if (s.tokens.back?).any (·.kind == .eof) then .error .afterEof
  else .ok { s with tokens := s.tokens.push t }

/-- Refuse all further tokens. -/
def freeze (s : TokenStream) : TokenStream := { s with readOnly := true }

/-! ### Scans -/

/-- First index among `i`, `i + 1`, … (`steps` of them) whose token satisfies `p`. -/
def seekUp (s : TokenStream) (p : Token → Bool) : (steps i : Nat) → Option Nat
  | 0, _ => none
  | steps + 1, i =>
    match s.tokens[i]? with
    | none => none
    | some t => if p t then some i else seekUp s p steps (i + 1)

/-- First index among `i`, `i - 1`, … (`steps` of them) whose token satisfies `p`. -/
def seekDown (s : TokenStream) (p : Token → Bool) : (steps i : Nat) → Option Nat
  | 0, _ => none
  | steps + 1, i =>
    match s.tokens[i]? with
    | none => none
    | some t => if p t then some i else seekDown s p steps (i - 1)

/-- First index from `start` up to, but not including, `stop` (the end of the stream by default)
    whose kind is among `kinds`, or is not if `exclude` is set. -/
def findNext (s : TokenStream) (kinds : List TokenKind) (start : Nat) (stop : Option Nat)
    (exclude : Bool) : Option Nat :=
  let stop := min (stop.getD s.size) s.size
  s.seekUp (fun t => kinds.contains t.kind != exclude) (stop - start) start

/-- First index from `start` down to `stop` (0 by default), both included, whose kind is among
    `kinds`, or is not if `exclude` is set.  A start past the end is moved to the last token. -/
def findPrevious (s : TokenStream) (kinds : List TokenKind) (start : Nat) (stop : Option Nat)
    (exclude : Bool) : Option Nat :=
  if s.size = 0 then none
  else
    let start := min start (s.size - 1)
    let stop := stop.getD 0
    if stop > start then none
    else s.seekDown (fun t => kinds.contains t.kind != exclude) (start - stop + 1) start

/-- First index from `start` on whose kind is not among `kinds`. -/
def nextOutside (s : TokenStream) (kinds : List TokenKind) (start : Nat) : Option Nat :=
  s.findNext kinds start none true

/-- Last index before `i` whose kind is not among `kinds`. -/
def previousOutside (s : TokenStream) (kinds : List TokenKind) : (i : Nat) → Option Nat
  | 0 => none
  | i + 1 => s.findPrevious kinds i none true

/-! ### Brackets -/

/-- Walk backwards from just before `i`, jumping from a closing bracket to its partner, to the
    first opening bracket.  `steps` bounds the walk. -/
def enclosingFrom (s : TokenStream) : (steps i : Nat) → BracketSearch
  | _, 0 => .absent
  | 0, _ + 1 => .endless
  | steps + 1, i + 1 =>
    match s.tokens[i]? with
    | none => .outside i
    | some t =>
      if t.opensBracket then .found i
      else if t.closesBracket then enclosingFrom s steps (t.related.getD i)
      else enclosingFrom s steps i

/-- The innermost opening bracket that contains `i`.  A walk that visits no place twice takes at
    most one step for each token; a longer one never ends. -/
def enclosingBracket (s : TokenStream) (i : Nat) : BracketSearch :=
  s.enclosingFrom (s.size + 1) (min i s.size)

end TokenStream

/-- A token as seen from outside: the stream it was taken from and its place there. -/
structure TokenHandle where
  /-- Which stream the token belongs to. -/
  owner : Nat
  index : Nat
  token : Token

/-- The index of a token in the stream named `owner`; a token of another stream has none. -/
def TokenStream.indexOf (s : TokenStream) (owner : Nat) (h : TokenHandle) : Except StreamError Nat :=
  if h.owner = owner ∧ h.index < s.size then .ok h.index
  else .error (.foreignToken h.token.value h.token.line)

end TwigStyle
