/-!
# Why a file cannot be used

The reasons that a file system has, and their wording.
-/

namespace Montage

/-- Why an operation on a path fails. -/
inductive Trouble where
  | notFound
  | alreadyThere
  | notDirectory
  | isDirectory
  | nameTooLong
  | zeroByte
  deriving Repr, DecidableEq

def Trouble.message : Trouble → String
  | .notFound => "No such file or directory (os error 2)"
  | .alreadyThere => "File exists (os error 17)"
  | .notDirectory => "Not a directory (os error 20)"
  | .isDirectory => "Is a directory (os error 21)"
  | .nameTooLong => "File name too long (os error 36)"
  | .zeroByte => "file name contained an unexpected NUL byte"

end Montage
