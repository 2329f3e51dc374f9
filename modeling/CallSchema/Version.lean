/-!
# Version

The version of the library's interface.
-/

namespace CallSchema

/-- The version of the library's interface. -/
def version : String := "0.1.0"

end CallSchema
