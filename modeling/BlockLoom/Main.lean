import BlockLoom.CommandLine.Run

/-!
The program on real files, standard output and standard error.
-/

namespace BlockLoom.CommandLine

/-- The cause of a failed access to a file. -/
def fileErrorOf : IO.Error → FileError
  | .noFileOrDirectory .. => .notFound
  | error => .other (toString error)

def systemFiles : FileAccess IO where
  read path := do
    try return .ok (← IO.FS.readFile path)
    catch error => return .error (fileErrorOf error)
  write path text := do
    try
      IO.FS.writeFile path text
      return .ok ()
    catch error => return .error (fileErrorOf error)

/-- Errors in arguments and settings are told by their causes. -/
def causes : Wording where
  misuse _ mistake := reprStr mistake ++ "\n"
  settings problem := reprStr problem

end BlockLoom.CommandLine

open BlockLoom.CommandLine in
def main (arguments : List String) : IO UInt32 := do
  let ending ← run systemFiles arguments
  IO.print ending.output
  IO.eprint (ending.error causes)
  return UInt32.ofNat ending.status
