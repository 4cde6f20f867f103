import StepWorld.Folder
import StepWorld.Number.Parsing

/-! Why an archive does not keep what it is given, or does not find it again. -/

namespace StepWorld

/-- The file system refuses, an integer has too many digits for a file, or a file is named by
signs for digits that make up no number. -/
inductive ArchiveError where
  | file (error : FileError)
  | number (fault : Fault)
  | stepName (name : String)
deriving DecidableEq, Repr

def ArchiveError.message : ArchiveError → String
  | .file e => e.message
  | .number f => f.message
  | .stepName name => notIntMessage name

end StepWorld
