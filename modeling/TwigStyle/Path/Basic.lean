import TwigStyle.Text.Blank

/-!
# Paths

A path is the text it was written as.  What it means is its list of components: `a//b`, `a/./b` and
`a/b/` all have the components of `a/b`.  A leading `./` is a component of its own, and `..` is
never resolved, because only the file system could do that.

Paths are compared, sorted and cut by component.  Cutting keeps the spelling of what remains, from
its first component to the end of its last one.
-/

namespace TwigStyle

/-- A path, spelled as given. -/
structure Path where
  text : String
deriving DecidableEq, Repr, Inhabited

namespace Path

/-- One step of a path. -/
inductive Component where
  /-- The leading `/`. -/
  | root
  /-- A leading `.`. -/
  | here
  /-- The step `..`. -/
  | up
  | name (text : List Char)
deriving DecidableEq, Repr

/-- A component and where it stands in the text: from `start` up to, not including, `stop`. -/
structure Span where
  component : Component
  start : Nat
  stop : Nat
deriving DecidableEq, Repr

/-- What a piece between two slashes stands for; empty pieces and `.` stand for nothing. -/
def componentOf? : List Char → Option Component
  | [] => none
  | ['.'] => none
  | ['.', '.'] => some .up
  | piece => some (.name piece)

/-- The components among the pieces of a text, the first piece standing at `offset`. -/
def pieceSpans : (offset : Nat) → List (List Char) → List Span
  | _, [] => []
  | offset, piece :: pieces =>
    let rest := pieceSpans (offset + piece.length + 1) pieces
    match componentOf? piece with
    | none => rest
    | some c => ⟨c, offset, offset + piece.length⟩ :: rest

/-- The components of a text with their places. -/
def textSpans (t : List Char) : List Span :=
  match t with
  | '/' :: t => ⟨.root, 0, 1⟩ :: pieceSpans 1 (Text.splitWhere (· == '/') t)
  | t =>
    match Text.splitWhere (· == '/') t with
    | ['.'] :: pieces => ⟨.here, 0, 1⟩ :: pieceSpans 2 pieces
    | pieces => pieceSpans 0 pieces

/-- The components of a path with their places. -/
def spans (p : Path) : List Span := textSpans p.text.toList

/-- The components of a path. -/
def components (p : Path) : List Component := p.spans.map (·.component)

/-- The text from the first of some spans to the end of the last. -/
def cover (t : List Char) (spans : List Span) : List Char :=
  match spans.head?, spans.getLast? with
  | some first, some last => (t.drop first.start).take (last.stop - first.start)
  | _, _ => []

/-- Does the path start at the root? -/
def isAbsolute (p : Path) : Bool := p.text.toList.head? == some '/'

/-- Do two paths have the same components? -/
def same (p q : Path) : Bool := p.components == q.components

/-- What remains of a path below `base`: none if `base` is not its beginning. -/
def relativeTo? (p base : Path) : Option Path :=
  let b := base.components
  if b.isPrefixOf p.components then
    some ⟨String.ofList (cover p.text.toList (p.spans.drop b.length))⟩
  else none

/-- What remains of a path below `base`, or the whole path. -/
def relativeTo (p base : Path) : Path := (p.relativeTo? base).getD p

/-- Append a path; an absolute one replaces what it is appended to. -/
def join (p q : Path) : Path :=
  if q.isAbsolute then q
  else
    let t := p.text.toList
    let sep := if t.isEmpty || t.getLast? == some '/' then [] else ['/']
    ⟨String.ofList (t ++ sep ++ q.text.toList)⟩

/-- The path without its last component; the root and the empty path have no parent. -/
def parent? (p : Path) : Option Path :=
  match p.spans.getLast? with
  | none => none
  | some last =>
    if last.component = .root then none
    else some ⟨String.ofList (cover p.text.toList p.spans.dropLast)⟩

/-- The path, its parent, and so on, `n` of them at most. -/
def ancestorsUpTo : (n : Nat) → Path → List Path
  | 0, _ => []
  | n + 1, p => p :: (match p.parent? with | none => [] | some q => ancestorsUpTo n q)

/-- The path, its parent, and so on: every parent has one component less. -/
def ancestors (p : Path) : List Path := ancestorsUpTo (p.components.length + 1) p

/-- The last component, if it is a name. -/
def fileName? (p : Path) : Option (List Char) :=
  match p.spans.getLast? with
  | some ⟨.name n, _, _⟩ => some n
  | _ => none

/-- What follows the last dot of a file name; a name that only starts with a dot has none. -/
def extension? (p : Path) : Option (List Char) := do
  let name ← p.fileName?
  if !name.contains '.' then none
  else
    let after := (name.reverse.takeWhile (· != '.')).reverse
    if after.length + 1 == name.length then none else some after

/-! ### Order -/

/-- Texts in the order of their code points, a beginning before its continuations. -/
def compareText : List Char → List Char → Ordering
  | [], [] => .eq
  | [], _ :: _ => .lt
  | _ :: _, [] => .gt
  | a :: s, b :: t => (compare a.toNat b.toNat).then (compareText s t)

/-- The rank of a component: root, `.`, `..`, names. -/
def Component.rank : Component → Nat
  | root => 0
  | here => 1
  | up => 2
  | name _ => 3

/-- Components by rank; names by their text. -/
def Component.compare (a b : Component) : Ordering :=
  match a, b with
  | name s, name t => compareText s t
  | a, b => Ord.compare a.rank b.rank

/-- Lists of components in lexicographic order. -/
def compareComponents : List Component → List Component → Ordering
  | [], [] => .eq
  | [], _ :: _ => .lt
  | _ :: _, [] => .gt
  | a :: s, b :: t => (a.compare b).then (compareComponents s t)

/-- Paths in the order of their components. -/
def compare (p q : Path) : Ordering := compareComponents p.components q.components

end Path

end TwigStyle
