/-!
# The version of the library
-/

namespace TagColoring

/-- The version of the library. -/
def version : String := "0.1.0"

end TagColoring
