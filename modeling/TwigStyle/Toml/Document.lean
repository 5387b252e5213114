import TwigStyle.Toml.Number

/-!
# TOML documents

A document is a row of lines: headers, which name the table that the following lines fill, and keys
with their values.  A value is given once, and a table is named once; a dotted key may add to tables
that dotted keys made, and to no other ones.

`extend` is the one way to change a document: it walks down a path of keys, makes the tables that
are missing, and hands the last table to a function.
-/

namespace TwigStyle.Toml

/-- The members of a table. -/
abbrev Members : Type := List (String × Toml)

/-- Give a key a value, in place of the one it has or at the end. -/
def setMember (key : String) (value : Toml) : Members → Members
  | [] => [(key, value)]
  | (k, v) :: ms => if k = key then (key, value) :: ms else (k, v) :: setMember key value ms

/-! ### Extending tables -/

/-- The table that a walk with or without dots makes on its way. -/
def newForm (dotted : Bool) : TableForm := if dotted then .dotted else .implicit

/-- May a walk enter a table of this form? -/
def mayEnter (dotted : Bool) : TableForm → Bool
  | .inline => false
  | .inlineDotted => false
  | .header => !dotted
  | .implicit => true
  | .dotted => true

/-- Walk down a path, making the tables that are missing, and change the table at its end.  Of an
    array of tables the walk enters the last one. -/
def extend (dotted : Bool) (change : TableForm → Members → Option Toml) :
    List String → TableForm → Members → Option Toml
  | [], form, ms => change form ms
  | k :: path, form, ms =>
    let child := match ms.lookup k with
      | none => extend dotted change path (newForm dotted) []
      | some (.table f children) =>
        if mayEnter dotted f then extend dotted change path f children else none
      | some (.tables items) =>
        match items.getLast? with
        | some (.table f children) =>
          (extend dotted change path f children).map fun t => .tables (items.dropLast ++ [t])
        | _ => none
      | some _ => none
    child.map fun c => .table form (setMember k c ms)

/-- Walk down a path between braces, making the tables that are missing. -/
def extendInline (change : TableForm → Members → Option Toml) :
    List String → TableForm → Members → Option Toml
  | [], form, ms => change form ms
  | k :: path, form, ms =>
    let child := match ms.lookup k with
      | none => extendInline change path .inlineDotted []
      | some (.table .inlineDotted children) => extendInline change path .inlineDotted children
      | some _ => none
    child.map fun c => .table form (setMember k c ms)

/-- Add a member to a table that has none of this key. -/
def addMember (key : String) (value : Toml) (form : TableForm) (ms : Members) : Option Toml :=
  if (ms.lookup key).isSome then none else some (.table form (ms ++ [(key, value)]))

/-- Add a member under a dotted key to a table. -/
def addDotted (path : List String) (value : Toml) (form : TableForm) (ms : Members) :
    Option Toml :=
  match path with
  | [] => none
  | [key] => addMember key value form ms
  | path =>
    extend true
      (fun f children =>
        if f = .dotted then (path.getLast?).bind fun key => addMember key value f children
        else none)
      path.dropLast form ms

/-- Add a member under a dotted key to a table between braces. -/
def addInline (path : List String) (value : Toml) (ms : Members) : Option Toml :=
  (path.getLast?).bind fun key =>
    extendInline (addMember key value) path.dropLast .inline ms

/-- Start the table of a header: it is new, or was only made on the way to others and now comes
    last. -/
def startTable (path : List String) (ms : Members) : Option Toml :=
  (path.getLast?).bind fun key =>
    extend false
      (fun form ms =>
        match ms.lookup key with
        | none => some (.table form (ms ++ [(key, .table .header [])]))
        | some (.table .implicit children) =>
          some (.table form (ms.filter (·.1 != key) ++ [(key, .table .header children)]))
        | some _ => none)
      path.dropLast .header ms

/-- Start the next table of an array of tables. -/
def startTables (path : List String) (ms : Members) : Option Toml :=
  (path.getLast?).bind fun key =>
    extend false
      (fun form ms =>
        match ms.lookup key with
        | none => some (.table form (ms ++ [(key, .tables [.table .header []])]))
        | some (.tables items) =>
          some (.table form (setMember key (.tables (items ++ [.table .header []])) ms))
        | some _ => none)
      path.dropLast .header ms

/-! ### Values -/

/-- The items of an array after its opening bracket; `fuel` bounds their number. -/
def arrayItems (value : List Char → Read Toml) : (fuel : Nat) → List Char → Read (List Toml)
  | 0, _ => none
  | fuel + 1, t =>
    match skipLayout t with
    | ']' :: rest => some ([], rest)
    | t =>
      match value t with
      | none => none
      | some (v, rest) =>
        match skipLayout rest with
        | ']' :: rest => some ([v], rest)
        | ',' :: rest => (arrayItems value fuel rest).map fun (vs, rest) => (v :: vs, rest)
        | _ => none

/-- The members of a table between braces, the first of which has to be there; `fuel` bounds their
    number and `ms` holds those read before. -/
def inlineMembers (value : List Char → Read Toml) :
    (fuel : Nat) → Members → List Char → Read Toml
  | 0, _, _ => none
  | fuel + 1, ms, t =>
    match key? t with
    | some (path, '=' :: rest) =>
      match value (skipSpaces rest) with
      | none => none
      | some (v, rest) =>
        match addInline path v ms with
        | some (.table _ ms) =>
          match skipSpaces rest with
          | '\x7d' :: rest => some (.table .inline ms, rest)
          | ',' :: rest => inlineMembers value fuel ms rest
          | _ => none
        | _ => none
    | _ => none

/-- A value, nested up to `depth` deep. -/
def value? : (depth : Nat) → List Char → Read Toml
  | _, 't' :: 'r' :: 'u' :: 'e' :: t => some (.boolean true, t)
  | _, 'f' :: 'a' :: 'l' :: 's' :: 'e' :: t => some (.boolean false, t)
  | 0, t => scalar? t
  | depth + 1, '[' :: t =>
    (arrayItems (value? depth) (t.length + 1) t).map fun (vs, rest) => (.array vs, rest)
  | depth + 1, '\x7b' :: t =>
    match skipSpaces t with
    | '\x7d' :: rest => some (.table .inline [], rest)
    | t => inlineMembers (value? depth) (t.length + 1) [] t
  | _ + 1, t => scalar? t
where
  /-- A string, a number or a date. -/
  scalar? (t : List Char) : Read Toml :=
    match t with
    | '"' :: _ => (stringText? t).map fun (s, rest) => (.string (String.ofList s), rest)
    | '\'' :: _ => (stringText? t).map fun (s, rest) => (.string (String.ofList s), rest)
    | _ => number? t

/-! ### Lines -/

/-- A document while it is read: its members, and the path of the table that is being filled. -/
structure Document where
  members : Members := []
  path : List String := []

/-- The document with other members. -/
def Document.with? (d : Document) (path : List String) : Option Toml → Option Document
  | some (.table _ ms) => some { d with members := ms, path }
  | _ => none

/-- Read a key with its value into the table that is being filled. -/
def keyLine? (d : Document) (t : List Char) : Read Document :=
  match key? t with
  | some (path, '=' :: rest) =>
    match value? maxDepth (skipSpaces rest) with
    | none => none
    | some (v, rest) =>
      let added := extend false (addDotted path v) d.path .header d.members
      match d.with? d.path added, lineEnd? rest with
      | some d, some rest => some (d, rest)
      | _, _ => none
  | _ => none

/-- Read a header. -/
def headerLine? (d : Document) (t : List Char) : Read Document :=
  match t with
  | '[' :: '[' :: t =>
    match key? t with
    | some (path, ']' :: ']' :: rest) =>
      match d.with? path (startTables path d.members), lineEnd? rest with
      | some d, some rest => some (d, rest)
      | _, _ => none
    | _ => none
  | '[' :: t =>
    match key? t with
    | some (path, ']' :: rest) =>
      match d.with? path (startTable path d.members), lineEnd? rest with
      | some d, some rest => some (d, rest)
      | _, _ => none
    | _ => none
  | _ => none

/-- Read the lines of a document; `fuel` bounds their number. -/
def readLines : (fuel : Nat) → Document → List Char → Option Document
  | 0, _, _ => none
  | fuel + 1, d, t =>
    match skipSpaces t with
    | [] => some d
    | c :: t =>
      let next :=
        if c == '#' || c == '\n' || c == '\r' then (lineEnd? (c :: t)).map fun rest => (d, rest)
        else if c == '[' then headerLine? d (c :: t)
        else keyLine? d (c :: t)
      match next with
      | none => none
      | some (d, rest) => readLines fuel d rest

/-- Read a document; a byte order mark may stand in front of it. -/
def parse? (text : List Char) : Option Members :=
  let text := match text with
    | '\ufeff' :: t => t
    | t => t
  (readLines (text.length + 1) {} text).map (·.members)

end TwigStyle.Toml
