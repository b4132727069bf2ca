import ProcessExplorer.Model.Process

/-! The signals that can be sent to a process. -/
namespace ProcessExplorer.Model

inductive Signal where
  | term | kill | hup | int | quit | usr1 | usr2 | stop | cont
  deriving DecidableEq, Repr

def Signal.name : Signal → String
  | .term => "SIGTERM"
  | .kill => "SIGKILL"
  | .hup => "SIGHUP"
  | .int => "SIGINT"
  | .quit => "SIGQUIT"
  | .usr1 => "SIGUSR1"
  | .usr2 => "SIGUSR2"
  | .stop => "SIGSTOP"
  | .cont => "SIGCONT"

def Signal.isUncatchable : Signal → Bool
  | .kill | .stop => true
  | _ => false

end ProcessExplorer.Model
