import PhpCheck.Node.Basic

/-!
# Places in the program text
-/

namespace PhpCheck

/-- Where something was declared. -/
structure Site where
  file : String
  line : Line
  deriving DecidableEq, Inhabited

namespace Site

/-- The place of what the language itself declares. -/
def internal : Site := ⟨"internal", 0⟩

def text (site : Site) : String := site.file ++ ":" ++ toString site.line.toNat

end Site

end PhpCheck
