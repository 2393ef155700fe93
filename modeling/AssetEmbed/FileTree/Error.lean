/-
  AssetEmbed.FileTree.Error — why an operation on files fails.
-/

namespace AssetEmbed

/-- The causes of a failing file operation. -/
inductive FileError where
  | notFound
  | alreadyExists
  | notADirectory
  | isADirectory
  | nameTooLong
  | tooManyLinks
  | zeroByte
  | invalidText
  /-- Another error, with its message. -/
  | system (text : String)
deriving DecidableEq, Repr

/-- The message of a cause; those of the operating system carry its number. -/
def FileError.message : FileError → String
  | .notFound => "No such file or directory (os error 2)"
  | .alreadyExists => "File exists (os error 17)"
  | .notADirectory => "Not a directory (os error 20)"
  | .isADirectory => "Is a directory (os error 21)"
  | .nameTooLong => "File name too long (os error 36)"
  | .tooManyLinks => "Too many levels of symbolic links (os error 40)"
  | .zeroByte => "file name contained an unexpected NUL byte"
  | .invalidText => "stream did not contain valid UTF-8"
  | .system text => text

end AssetEmbed
