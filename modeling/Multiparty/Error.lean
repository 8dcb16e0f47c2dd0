import Multiparty.Comparison.Basic
import Multiparty.Session

/-!
# Errors of the library

One type for every error, with two texts: the plain one of the cause, and the
full one, which also tells when the cause arose in a projection or a
comparison.
-/

namespace Multiparty

/-- Any error. -/
inductive Error where
  | lookup (cause : LookupError)
  | validation (cause : ValidationError)
  | kind (cause : KindMismatch)
  | projection (cause : ProjectionError)
  | comparison (cause : CompareError)
  | evaluation (cause : EvalError)
  deriving DecidableEq

namespace Error

/-- The text of the cause. -/
def message : Error → String
  | lookup cause => cause.message
  | validation cause => cause.message
  | kind cause => cause.message
  | projection cause => cause.message
  | comparison cause => cause.message
  | evaluation cause => cause.message

/-- The text of the cause after the activity that it ended. -/
def fullMessage : Error → String
  | projection cause => "Projection failed: " ++ cause.message
  | comparison cause => "Comparison failed: " ++ cause.message
  | other => other.message

end Error

end Multiparty
