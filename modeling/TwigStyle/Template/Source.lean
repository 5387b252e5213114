import TwigStyle.Path.Basic

/-!
# Source files

A file as the linter sees it: its path as given, its content, and its path relative to the root of
the project, which is what path patterns are matched against.
-/

namespace TwigStyle

/-- A file to be checked. -/
structure SourceFile where
  path : Path
  content : List Char
  /-- The path relative to the root of the project. -/
  relative : Path
deriving DecidableEq, Repr

namespace SourceFile

/-- A file of a project; outside of the root it keeps its whole path. -/
def under (root path : Path) (content : List Char) : SourceFile :=
  { path, content, relative := path.relativeTo root }

/-- A file without a project. -/
def alone (path : Path) (content : List Char) : SourceFile :=
  { path, content, relative := path }

end SourceFile

end TwigStyle
