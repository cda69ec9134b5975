import ObjectLang.Scope.Store
import ObjectLang.Text.Quoted

/-!
# Showing a scope

A host may ask what a frame looks like. The answer lists the names that the frame defines, quoted,
and says whether there is a parent; it does not show what the names mean, since meanings may refer
back to the frame.
-/

namespace ObjectLang

/-- The frame's names and whether it has a parent. -/
def Store.describe {α : Type} (s : Store α) (f : FrameId) : String :=
  let names := ", ".intercalate ((s.names f).map quoted)
  let parent := if (s.parent? f).isSome then "true" else "false"
  "Scope \x7b names: [" ++ names ++ "], has_parent: " ++ parent ++ " \x7d"

end ObjectLang
