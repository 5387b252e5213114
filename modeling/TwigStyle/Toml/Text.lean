/-!
# Blanks, comments, keys and strings of TOML

Each reader takes what it reads off the front of the text and gives back the rest; it gives nothing
if the text does not start with what it reads.
-/

namespace TwigStyle.Toml

/-- What a reader gives: a value and the rest of the text. -/
abbrev Read (α : Type) : Type := Option (α × List Char)

/-! ### Blanks and comments -/

/-- May the character stand in a comment?  Tabs, and everything but control characters. -/
def isPlain (c : Char) : Bool := c == '\t' || (32 ≤ c.toNat && c.toNat != 127)

/-- The text without the spaces and tabs at its start. -/
def skipSpaces (t : List Char) : List Char := t.dropWhile fun c => c == ' ' || c == '\t'

/-- The text after a line break. -/
def lineBreak? : List Char → Option (List Char)
  | '\n' :: t => some t
  | '\r' :: '\n' :: t => some t
  | _ => none

/-- The text without the comment at its start, if there is one. -/
def skipComment : List Char → List Char
  | '#' :: t => t.dropWhile isPlain
  | t => t

/-- The text after the end of a line, which may hold a comment. -/
def lineEnd? (t : List Char) : Option (List Char) :=
  match skipComment (skipSpaces t) with
  | [] => some []
  | t => lineBreak? t

/-- The text without the blanks, line breaks and comments at its start; `fuel` bounds the number of
    lines.  A comment has to end with a line break. -/
def skipLines : (fuel : Nat) → List Char → List Char
  | 0, t => t
  | fuel + 1, t =>
    let t := skipSpaces t
    match lineBreak? (skipComment t) with
    | some rest => skipLines fuel rest
    | none => t

/-- The text without the blanks, line breaks and comments at its start. -/
def skipLayout (t : List Char) : List Char := skipLines t.length t

/-! ### Escapes -/

/-- The value of a hexadecimal digit. -/
def hexDigit? (c : Char) : Option Nat :=
  if '0' ≤ c && c ≤ '9' then some (c.toNat - 48)
  else if 'a' ≤ c && c ≤ 'f' then some (c.toNat - 87)
  else if 'A' ≤ c && c ≤ 'F' then some (c.toNat - 55)
  else none

/-- The value of a row of hexadecimal digits. -/
def hexValue? (digits : List Char) : Option Nat :=
  digits.foldlM (fun n c => (hexDigit? c).map (16 * n + ·)) 0

/-- The character of a code in hexadecimal; surrogates are no characters. -/
def codePoint? (digits : List Char) : Option Char :=
  match hexValue? digits with
  | none => none
  | some n =>
    if n < 0xD800 || (0xDFFF < n && n ≤ 0x10FFFF) then some (Char.ofNat n) else none

/-- The character that a letter after a backslash stands for. -/
def escape? : Char → Option Char
  | 'b' => some '\x08'
  | 't' => some '\t'
  | 'n' => some '\n'
  | 'f' => some '\x0c'
  | 'r' => some '\r'
  | '"' => some '"'
  | '\\' => some '\\'
  | _ => none

/-- Put a character in front of a text that was read after it. -/
def withChar (c : Option Char) (r : Read (List Char)) : Read (List Char) :=
  match c, r with
  | some c, some (t, rest) => some (c :: t, rest)
  | _, _ => none

/-! ### Strings on one line -/

/-- The rest of a string between double quotes. -/
def basic : List Char → Read (List Char)
  | [] => none
  | '"' :: t => some ([], t)
  | '\\' :: 'u' :: a :: b :: c :: d :: t => withChar (codePoint? [a, b, c, d]) (basic t)
  | '\\' :: 'U' :: a :: b :: c :: d :: e :: f :: g :: h :: t =>
    withChar (codePoint? [a, b, c, d, e, f, g, h]) (basic t)
  | '\\' :: c :: t => withChar (escape? c) (basic t)
  | c :: t => withChar (if isPlain c && c != '\\' then some c else none) (basic t)

/-- The rest of a string between single quotes. -/
def literal : List Char → Read (List Char)
  | [] => none
  | '\'' :: t => some ([], t)
  | c :: t => withChar (if isPlain c then some c else none) (literal t)

/-! ### Strings over several lines -/

/-- The rest of a string between three double quotes.  With `trimming` set, a backslash at the end
    of a line was just read, and blanks and line breaks are left out. -/
def longBasic (trimming : Bool) : List Char → Read (List Char)
  | [] => none
  | '"' :: '"' :: '"' :: '"' :: '"' :: t => some (['"', '"'], t)
  | '"' :: '"' :: '"' :: '"' :: t => some (['"'], t)
  | '"' :: '"' :: '"' :: t => some ([], t)
  | '\r' :: '\n' :: t =>
    if trimming then longBasic true t else withChar (some '\n') (longBasic false t)
  | '\n' :: t => if trimming then longBasic true t else withChar (some '\n') (longBasic false t)
  | '\\' :: 'u' :: a :: b :: c :: d :: t => withChar (codePoint? [a, b, c, d]) (longBasic false t)
  | '\\' :: 'U' :: a :: b :: c :: d :: e :: f :: g :: h :: t =>
    withChar (codePoint? [a, b, c, d, e, f, g, h]) (longBasic false t)
  | '\\' :: c :: t =>
    match escape? c with
    | some c => withChar (some c) (longBasic false t)
    | none => if (lineBreak? (skipSpaces (c :: t))).isSome then longBasic true (c :: t) else none
  | c :: t =>
    if trimming && (c == ' ' || c == '\t') then longBasic true t
    else withChar (if isPlain c && c != '\\' then some c else none) (longBasic false t)

/-- The rest of a string between three single quotes. -/
def longLiteral : List Char → Read (List Char)
  | [] => none
  | '\'' :: '\'' :: '\'' :: '\'' :: '\'' :: t => some (['\'', '\''], t)
  | '\'' :: '\'' :: '\'' :: '\'' :: t => some (['\''], t)
  | '\'' :: '\'' :: '\'' :: t => some ([], t)
  | '\r' :: '\n' :: t => withChar (some '\n') (longLiteral t)
  | c :: t => withChar (if isPlain c || c == '\n' then some c else none) (longLiteral t)

/-- The text without the line break at its start, if there is one. -/
def dropLineBreak (t : List Char) : List Char := (lineBreak? t).getD t

/-- A string of any kind. -/
def stringText? : List Char → Read (List Char)
  | '"' :: '"' :: '"' :: t => longBasic false (dropLineBreak t)
  | '"' :: t => basic t
  | '\'' :: '\'' :: '\'' :: t => longLiteral (dropLineBreak t)
  | '\'' :: t => literal t
  | _ => none

/-! ### Keys -/

/-- May the character stand in a key without quotes? -/
def isKeyChar (c : Char) : Bool := c.isAlphanum || c == '-' || c == '_'

/-- One part of a key. -/
def keyPart? : List Char → Read String
  | '"' :: t => (basic t).map fun (s, rest) => (String.ofList s, rest)
  | '\'' :: t => (literal t).map fun (s, rest) => (String.ofList s, rest)
  | t =>
    match t.takeWhile isKeyChar with
    | [] => none
    | part => some (String.ofList part, t.dropWhile isKeyChar)

/-- A key of up to `fuel` parts with dots between them, and blanks around each part. -/
def keyParts? : (fuel : Nat) → List Char → Read (List String)
  | 0, _ => none
  | fuel + 1, t =>
    match keyPart? (skipSpaces t) with
    | none => none
    | some (part, rest) =>
      match skipSpaces rest with
      | '.' :: rest => (keyParts? fuel rest).map fun (parts, rest) => (part :: parts, rest)
      | rest => some ([part], rest)

/-- How deep keys and values may be nested. -/
def maxDepth : Nat := 79

/-- A key: its parts, in order. -/
def key? (t : List Char) : Read (List String) := keyParts? maxDepth t

end TwigStyle.Toml
