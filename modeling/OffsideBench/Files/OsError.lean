/-!
# Errors of the operating system

The ways in which a file system refuses an operation, with the wording and number that it gives
them.
-/

namespace OffsideBench

/-- Why an operation on files was refused. -/
inductive OsError where
  /-- A name on the way, or the last one, does not exist. -/
  | notFound
  /-- The name to be made exists. -/
  | alreadyExists
  /-- A name on the way is no directory. -/
  | notDirectory
  /-- The name to be written is a directory. -/
  | isDirectory
  /-- A name, or the whole path, is too long. -/
  | nameTooLong
  /-- Symbolic links lead to too many others. -/
  | tooManyLinks
  /-- A path holds a null byte. -/
  | nullByte
deriving DecidableEq, Repr, Inhabited

/-- The wording of an error. -/
def OsError.message : OsError → String
  | notFound => "No such file or directory (os error 2)"
  | alreadyExists => "File exists (os error 17)"
  | notDirectory => "Not a directory (os error 20)"
  | isDirectory => "Is a directory (os error 21)"
  | nameTooLong => "File name too long (os error 36)"
  | tooManyLinks => "Too many levels of symbolic links (os error 40)"
  | nullByte => "file name contained an unexpected NUL byte"

end OffsideBench
