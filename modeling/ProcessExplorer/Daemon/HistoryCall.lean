import ProcessExplorer.Model.Timeline

/-! What the daemon asks of the history store, and how the store can fail. -/
namespace ProcessExplorer.Daemon
open Model

inductive HistoryError where
  | sqlite (code : Nat)
  | json
  deriving DecidableEq, Repr

/-- The calls that change the history store. -/
inductive HistoryCall where
  | recordSnapshot (snapshot : ProcessSnapshot) (sampledAt : Int64)
  | recordEvent (event : TimelineEvent)
  | pruneOlderThan (cutoff : Int64)

end ProcessExplorer.Daemon
