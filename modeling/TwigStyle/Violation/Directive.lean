import TwigStyle.Violation.Id

/-!
# Suppression directives

A comment whose text starts with `twig-cs-fixer-disable` silences violations: in the whole file, on
the line of the comment (`-line`) or on the next one (`-next-line`).  After the keyword it may list
ids, separated by commas or blanks; without any id it silences every rule in its scope.

The line of the comment is the line on which it starts.
-/

namespace TwigStyle

namespace Directive

/-- Where a directive applies. -/
inductive Scope where
  | file
  | line
  | nextLine
deriving DecidableEq, Repr

/-- The line a scope binds its ids to, for a comment on a given line. -/
def Scope.boundLine : Scope → (commentLine : Nat) → Option Nat
  | file, _ => none
  | line, n => some n
  | nextLine, n => some (Text.nextCount n)

/-- The word every directive starts with. -/
def keyword : List Char := "twig-cs-fixer-disable".toList

/-- The scope written after the keyword, and the text after it. -/
def scopeOf (t : List Char) : Scope × List Char :=
  match Text.after? "-line".toList t with
  | some rest => (.line, rest)
  | none =>
    match Text.after? "-next-line".toList t with
    | some rest => (.nextLine, rest)
    | none => (.file, t)

/-- The scope of a directive and the text of its ids; none if the comment is no directive. -/
def split? (comment : List Char) : Option (Scope × List Char) :=
  match Text.after? keyword (Text.trim comment) with
  | none => none
  | some t =>
    let (scope, rest) := scopeOf t
    match rest with
    | [] => some (scope, [])
    | c :: _ => if Text.isBlank c then some (scope, rest.dropWhile Text.isBlank) else none

/-- The items of a list of ids: what stands between commas and blanks. -/
def items (ids : List Char) : List (List Char) :=
  Text.fields (fun c => c == ',' || Text.isBlank c) ids

/-- The suppression patterns of a comment that starts on a given line; none if it is no
    directive. -/
def parse? (comment : List Char) (line : Nat) : Option (List ViolationId) :=
  match split? comment with
  | none => none
  | some (scope, ids) =>
    let bound := scope.boundLine line
    match items ids with
    | [] => some [{ line := bound }]
    | items => some (items.map (ViolationId.parse · bound))

end Directive

/-- Does one of the patterns match the id? -/
def isSuppressed (directives : List ViolationId) (id : ViolationId) : Bool :=
  directives.any (·.isMatch id)

end TwigStyle
