/-!
# Truth values

The words for truth values in logs and documents.
-/

namespace IterativeDns.Text

def truth (b : Bool) : String :=
  if b then "true" else "false"

end IterativeDns.Text
