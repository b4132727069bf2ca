import ProcessExplorer.Library.Words
import ProcessExplorer.Model.Process

/-! What a command of the command line leaves behind. -/
namespace ProcessExplorer.Cli
open Library Model

/-- The exit code of a command, and what it prints to the two streams, one text a line. -/
structure CommandOutput where
  exitCode : Int32
  printed : List String
  errors : List String
  deriving DecidableEq

/-- The JSON half of print_json_or, given what serde_json makes of the value. -/
def printJson : Except String String → CommandOutput
  | .ok text => ⟨0, [text], []⟩
  | .error err => ⟨0, [], ["sher: failed to serialize output: " ++ err]⟩

/-- Padded with blanks to a width, as {:>} and {:<} do. -/
def alignRight (width : ℕ) (s : String) : String := String.ofList (Text.padLeft width s.toList)

def alignLeft (width : ℕ) (s : String) : String := String.ofList (s.toList ++ List.replicate (width - s.length) ' ')

def notFoundLine (pid : Pid) : String := "sher: no process with pid " ++ toString pid ++ " (it may have exited)"

def notFoundError (pid : Pid) : CommandOutput := ⟨1, [], [notFoundLine pid]⟩

end ProcessExplorer.Cli
