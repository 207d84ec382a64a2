/-!
# Why a file operation fails
-/

namespace FluidAnalysis.Files

/-- The cause of a failed file operation. -/
inductive Cause where
  | notFound
  | permissionDenied
  | alreadyExists
  | notADirectory
  | isADirectory
  | nameTooLong
  | notText
deriving Repr, DecidableEq

/-- The wording of the system. -/
def Cause.message : Cause → String
  | .notFound => "No such file or directory (os error 2)"
  | .permissionDenied => "Permission denied (os error 13)"
  | .alreadyExists => "File exists (os error 17)"
  | .notADirectory => "Not a directory (os error 20)"
  | .isADirectory => "Is a directory (os error 21)"
  | .nameTooLong => "File name too long (os error 36)"
  | .notText => "stream did not contain valid UTF-8"

end FluidAnalysis.Files
