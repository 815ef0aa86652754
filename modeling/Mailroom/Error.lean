import Mailroom.Text

/-!
# Faults and errors

A `Fault` is the file system's refusal of one operation.  An `Error` is what stops a part of the
mailroom's work; `Error.message` gives its wording.
-/

namespace Mailroom

/-- Why the file system refuses an operation. -/
inductive Fault where
  /-- A name leads nowhere. -/
  | notFound
  /-- A file stands where a folder is needed. -/
  | notAFolder
  /-- A folder stands where a file is needed. -/
  | isAFolder
  /-- A folder that has to be empty is not. -/
  | folderNotEmpty
  /-- A folder cannot be put into itself. -/
  | insideItself
  deriving DecidableEq, Repr

/-- The operating system's wording of a fault. -/
def Fault.message : Fault → Text
  | .notFound => "No such file or directory (os error 2)"
  | .notAFolder => "Not a directory (os error 20)"
  | .isAFolder => "Is a directory (os error 21)"
  | .folderNotEmpty => "Directory not empty (os error 39)"
  | .insideItself => "Invalid argument (os error 22)"

/-- What can stop a part of the work. -/
inductive Error where
  /-- The rules or the settings are wrong. -/
  | config (text : Text)
  /-- The file system refuses. -/
  | file (fault : Fault)
  /-- A message is not where it should be. -/
  | missing (text : Text)
  /-- A message cannot be read as a message. -/
  | parse (text : Text)
  /-- A message cannot be delivered. -/
  | smtp (text : Text)
  /-- The work was called off. -/
  | cancelled
  deriving DecidableEq, Repr

namespace Error

/-- The wording of an error. -/
def message : Error → Text
  | config text => "Configuration error: " ++ text
  | file fault => "IO error: " ++ fault.message
  | missing text => "IO error: " ++ text
  | parse text => "Message parsing error: " ++ text
  | smtp text => "SMTP error: " ++ text
  | cancelled => "Pass cancelled"

/-- Whether a later pass may succeed where this one failed: only delivery can. -/
def isTransient : Error → Bool
  | smtp _ => true
  | _ => false

end Error

end Mailroom
