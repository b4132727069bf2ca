import ProcessExplorer.Library.HashTable
import ProcessExplorer.Telemetry.Adapter

/-! The in-memory adapter. Its list of pids comes in the order of a hash table. -/
namespace ProcessExplorer.Telemetry
open Library Model

structure MockTelemetryAdapter where
  processes : HashMap Pid ProcessSnapshot
  connections : HashMap Pid (List NetworkConnection)

namespace MockTelemetryAdapter

def new : MockTelemetryAdapter := ⟨∅, ∅⟩

def setProcess (mock : MockTelemetryAdapter) (snapshot : ProcessSnapshot) : MockTelemetryAdapter :=
  { mock with processes := mock.processes.insert snapshot.pid snapshot }

def setConnections (mock : MockTelemetryAdapter) (pid : Pid) (connections : List NetworkConnection) :
    MockTelemetryAdapter :=
  { mock with connections := mock.connections.insert pid connections }

/-- The mock after one setProcess for each snapshot. -/
def ofList (snapshots : List ProcessSnapshot) : MockTelemetryAdapter := snapshots.foldl setProcess new

def adapter (mock : MockTelemetryAdapter) (order : Visit Pid) : TelemetryAdapter where
  listPids := .ok (order.run mock.processes.keys)
  process pid := match mock.processes.lookup pid with
    | some snapshot => .ok snapshot
    | none => .error (.notFound pid)
  connections pid := .ok ((mock.connections.lookup pid).getD [])

/-- The mock never lists a pid twice. -/
theorem listPids_nodup (mock : MockTelemetryAdapter) (order : Visit Pid) (pids : List Pid)
    (h : (mock.adapter order).listPids = .ok pids) : pids.Nodup := by
  obtain rfl := Except.ok.inj h
  exact (order.perm _).nodup_iff.mpr (AList.keys_nodup _)

theorem process_eq_ok_iff (mock : MockTelemetryAdapter) (order : Visit Pid) (pid : Pid) (snapshot : ProcessSnapshot) :
    (mock.adapter order).process pid = .ok snapshot ↔ mock.processes.lookup pid = some snapshot := by
  simp only [adapter]
  cases mock.processes.lookup pid <;> simp

end MockTelemetryAdapter

end ProcessExplorer.Telemetry
