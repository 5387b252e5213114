import TwigStyle.Rule.Finding
import TwigStyle.Rule.Naming

/-!
# Names of variables

The names that a `set` block declares follow a naming convention.  Only declarations are checked:
a name that is merely used may come from outside of the template.
-/

namespace TwigStyle

/-- Does the token end the names that a `set` block declares: the `=`, or the end of the block? -/
def endsDeclaration (t : Token) : Bool := t.kind == .blockEnd || t.isThe .operator "="

/-- The names that the block named at `i` declares, with their places. -/
def declaredNames (s : TokenStream) (i : Nat) : List (Token × Nat) :=
  let rest := ((s.tokens.extract (i + 1) s.size).toList.zipIdx (i + 1))
  (rest.takeWhile fun (t, _) => !endsDeclaration t).filter fun (t, _) => t.kind == .name

/-- The declared names at `i` that do not follow the convention. -/
def checkNames (convention : NamingCase) (s : TokenStream) (i : Nat) : List Finding :=
  if (s.get? i).any (·.isThe .blockName "set") then
    (declaredNames s i).filterMap fun (token, index) =>
      let wanted := convention.convert token.value
      if wanted == token.value then none
      else
        let label := convention.label
        let expected := String.ofList wanted
        some {
          index
          token
          message := s!"The var name must use {label}; expected {expected}." }
  else []

end TwigStyle
