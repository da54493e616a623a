/-!
# Environment variables

The variables that the program is started with, by their names.
-/

namespace Eligibility

/-- Environment variables and their values. -/
abbrev Variables := List (String × String)

namespace Variables

/-- The value of a variable. -/
def get? (vars : Variables) (name : String) : Option String :=
  (vars.find? fun entry => entry.1 == name).map Prod.snd

end Variables

end Eligibility
