import TwigStyle.Json.Basic

/-!
# Reading JSON

`Json.parse?` reads one value that takes up the whole text.  Every function takes the text that is
left and returns what it read with the text after it; `fuel` bounds the calls and is computed from
the length of the text.

A character beyond U+FFFF is escaped in two halves.  A half without the other one is well formed but
stands for no character, so a string with it is kept as written, and so is an object with it in the
name of a member.
-/

namespace TwigStyle.Json

/-- Blanks between the parts of a value. -/
def isGap (c : Char) : Bool := c == ' ' || c == '\t' || c == '\n' || c == '\r'

/-- The text after its leading blanks. -/
def skipGap (t : List Char) : List Char := t.dropWhile isGap

/-- The value of a hexadecimal digit. -/
def hexValue? (c : Char) : Option Nat :=
  if c.isDigit then some (c.toNat - '0'.toNat)
  else if 'a' ≤ c ∧ c ≤ 'f' then some (c.toNat - 'a'.toNat + 10)
  else if 'A' ≤ c ∧ c ≤ 'F' then some (c.toNat - 'A'.toNat + 10)
  else none

/-- Four hexadecimal digits. -/
def hexFour? : List Char → Option (Nat × List Char)
  | a :: b :: c :: d :: t => do
    let n := (((← hexValue? a) * 16 + (← hexValue? b)) * 16 + (← hexValue? c)) * 16 + (← hexValue? d)
    some (n, t)
  | _ => none

/-- The second half of a character, if its escape follows. -/
def secondHalf? : List Char → Option (Nat × List Char)
  | '\\' :: 'u' :: t =>
    match hexFour? t with
    | some (m, t) => if 0xDC00 ≤ m ∧ m ≤ 0xDFFF then some (m, t) else none
    | none => none
  | _ => none

/-- The character that a `\u` escape stands for, together with the next one if they are halves of
    one character; a half alone stands for none. -/
def unicodeEscape? (t : List Char) : Option (Option Char × List Char) := do
  let (n, t) ← hexFour? t
  if 0xDC00 ≤ n ∧ n ≤ 0xDFFF then some (none, t)
  else if 0xD800 ≤ n ∧ n ≤ 0xDBFF then
    match secondHalf? t with
    | some (m, t) => some (some (Char.ofNat (0x10000 + (n - 0xD800) * 0x400 + (m - 0xDC00))), t)
    | none => some (none, t)
  else some (some (Char.ofNat n), t)

/-- The characters a backslash escape of one letter stands for. -/
def simpleEscape? (c : Char) : Option Char :=
  if c == '"' || c == '\\' || c == '/' then some c
  else if c == 'b' then some (Char.ofNat 8)
  else if c == 'f' then some (Char.ofNat 12)
  else if c == 'n' then some '\n'
  else if c == 'r' then some '\r'
  else if c == 't' then some '\t'
  else none

/-- The characters of a string, last one first; none once half of a character was escaped. -/
abbrev ReadChars : Type := Option (List Char)

/-- One more character of a string. -/
def ReadChars.push (read : ReadChars) (c : Char) : ReadChars := read.map (c :: ·)

/-- The text of the characters. -/
def ReadChars.text? (read : ReadChars) : Option String :=
  read.map fun cs => String.ofList cs.reverse

/-- The rest of a string after its opening quote. -/
def stringBody? : (fuel : Nat) → ReadChars → List Char → Option (Option String × List Char)
  | 0, _, _ => none
  | fuel + 1, read, t =>
    match t with
    | [] => none
    | '"' :: t => some (read.text?, t)
    | '\\' :: 'u' :: t =>
      match unicodeEscape? t with
      | none => none
      | some (none, t) => stringBody? fuel none t
      | some (some c, t) => stringBody? fuel (read.push c) t
    | '\\' :: c :: t =>
      match simpleEscape? c with
      | none => none
      | some c => stringBody? fuel (read.push c) t
    | c :: t => if c.toNat < 0x20 then none else stringBody? fuel (read.push c) t

/-- A string after its opening quote. -/
def string? (t : List Char) : Option (Option String × List Char) :=
  stringBody? (t.length + 1) (some []) t

/-- What was read of a text, as written. -/
def written (t rest : List Char) : Json := .raw (String.ofList (t.take (t.length - rest.length)))

/-- At least one digit. -/
def digits? (t : List Char) : Option (List Char × List Char) :=
  let (ds, rest) := t.span Char.isDigit
  if ds.isEmpty then none else some (ds, rest)

/-- The fraction of a number, if there is one. -/
def fraction? : List Char → Option (List Char × List Char)
  | '.' :: t => (digits? t).map fun (ds, rest) => ('.' :: ds, rest)
  | t => some ([], t)

/-- The exponent of a number, if there is one. -/
def exponent? : List Char → Option (List Char × List Char)
  | e :: t =>
    if e == 'e' || e == 'E' then
      match t with
      | '+' :: t => (digits? t).map fun (ds, rest) => (e :: '+' :: ds, rest)
      | '-' :: t => (digits? t).map fun (ds, rest) => (e :: '-' :: ds, rest)
      | t => (digits? t).map fun (ds, rest) => (e :: ds, rest)
    else some ([], e :: t)
  | [] => some ([], [])

/-- The value of decimal digits. -/
def decimal (ds : List Char) : Nat := ds.foldl (fun n c => 10 * n + (c.toNat - '0'.toNat)) 0

/-- A number without its sign: no leading zero before another digit.  Integers outside the signed
    and unsigned 64-bit ranges, and a negative zero, count as reals. -/
def number? (negative : Bool) (t : List Char) : Option (Json × List Char) := do
  let (ds, t) ← digits? t
  if ds.length > 1 && ds.head? == some '0' then none
  else
    let (frac, t) ← fraction? t
    let (expo, t) ← exponent? t
    let n := decimal ds
    let literal := String.ofList ((if negative then ['-'] else []) ++ ds ++ frac ++ expo)
    if !frac.isEmpty || !expo.isEmpty then some (.real literal, t)
    else if negative then
      if n == 0 || n > Nat.pow 2 63 then some (.real literal, t) else some (.int (-(n : Int)), t)
    else if n ≥ Nat.pow 2 64 then some (.real literal, t)
    else some (.int n, t)

/-- The text after a literal word. -/
def literal? : (word t : List Char) → Option (List Char)
  | [], t => some t
  | c :: word, d :: t => if c == d then literal? word t else none
  | _ :: _, [] => none

/-- The members of an object, last one first; none once a name had no text. -/
abbrev ReadMembers : Type := Option (List (String × Json))

/-- One more member of an object. -/
def ReadMembers.push (read : ReadMembers) (name : Option String) (value : Json) : ReadMembers := do
  some ((← name, value) :: (← read))

mutual

/-- One value; leading blanks are skipped. -/
def value? : (fuel : Nat) → List Char → Option (Json × List Char)
  | 0, _ => none
  | fuel + 1, t =>
    let start := skipGap t
    match start with
    | [] => none
    | 'n' :: t => (literal? "ull".toList t).map fun t => (.null, t)
    | 't' :: t => (literal? "rue".toList t).map fun t => (.bool true, t)
    | 'f' :: t => (literal? "alse".toList t).map fun t => (.bool false, t)
    | '"' :: t =>
      (string? t).map fun
        | (some s, t) => (.str s, t)
        | (none, t) => (written start t, t)
    | '-' :: t => number? true t
    | '[' :: t =>
      match skipGap t with
      | ']' :: t => some (.arr [], t)
      | t => (items? fuel [] t).map fun (items, t) => (.arr items, t)
    | '\x7b' :: t =>
      match skipGap t with
      | '\x7d' :: t => some (.obj [], t)
      | t =>
        (members? fuel (some []) t).map fun
          | (some members, t) => (.obj members.reverse, t)
          | (none, t) => (written start t, t)
    | t => number? false t

/-- The items of an array, up to its closing bracket. -/
def items? : (fuel : Nat) → List Json → List Char → Option (List Json × List Char)
  | 0, _, _ => none
  | fuel + 1, read, t =>
    match value? fuel t with
    | none => none
    | some (item, t) =>
      match skipGap t with
      | ',' :: t => items? fuel (item :: read) t
      | ']' :: t => some ((item :: read).reverse, t)
      | _ => none

/-- The members of an object, up to its closing brace. -/
def members? : (fuel : Nat) → ReadMembers → List Char → Option (ReadMembers × List Char)
  | 0, _, _ => none
  | fuel + 1, read, t =>
    match skipGap t with
    | '"' :: t =>
      match string? t with
      | none => none
      | some (name, t) =>
        match skipGap t with
        | ':' :: t =>
          match value? fuel t with
          | none => none
          | some (value, t) =>
            let read := read.push name value
            match skipGap t with
            | ',' :: t => members? fuel read t
            | '\x7d' :: t => some (read, t)
            | _ => none
        | _ => none
    | _ => none

end

/-- Read one value that takes up the whole text. -/
def parse? (text : String) : Option Json :=
  let t := text.toList
  match value? (2 * t.length + 2) t with
  | some (j, rest) => if (skipGap rest).isEmpty then some j else none
  | none => none

end TwigStyle.Json
