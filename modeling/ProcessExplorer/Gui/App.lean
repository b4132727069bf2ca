import ProcessExplorer.Control.KillSafety
import ProcessExplorer.Gui.TreeView
import ProcessExplorer.Investigation.Rules
import ProcessExplorer.Telemetry.Linux.Perf
import ProcessExplorer.Telemetry.Linux.Strace

/-! The window: what it keeps between two frames, and what a click on each of its widgets does. -/
namespace ProcessExplorer.Gui
open Library Model Telemetry Telemetry.Linux Intelligence Investigation Relation
open Control (Event)

inductive DetailTab where
  | overview | memory | cpu | threads | files | network | disk | security | environment | timeline
  deriving DecidableEq, Repr

def DetailTab.AsksWhy (tab : DetailTab) : Prop := tab ∈ [.memory, .cpu, .network, .disk]

structure CachedFinding where
  pid : Pid
  tab : DetailTab
  finding : Finding

/-- An error is kept where the source keeps its text. -/
structure SherApp where
  intel : ProcessIntelligence
  refreshError : Option TelemetryError
  expanded : Finset Pid
  filter : String
  selected : Option Pid
  selectedTab : DetailTab
  cachedFinding : Option CachedFinding
  cachedHotFunctions : Option (Pid × Result (List HotFunction))
  cachedSyscalls : Option (Pid × Result (List SyscallStat))
  /-- A click that waits for confirmation, with the start time that the process had at the click. -/
  pendingSignal : Option (HistoryKey × Signal)
  lastSignalResult : Option (Pid × Signal × Result Unit)
  /-- The path that was written, or the text of an error. -/
  lastExportResult : Option (Pid × Except String String)
  selectedSignal : Signal

namespace SherApp

def refresh (app : SherApp) (t : Tick) : SherApp :=
  match app.intel.refreshAt t with
  | (intel, .error e) => { app with intel := intel, refreshError := some e }
  | (intel, .ok ()) => { app with intel := intel, refreshError := none }

def blank (intel : ProcessIntelligence) : SherApp where
  intel := intel
  refreshError := none
  expanded := ∅
  filter := ""
  selected := none
  selectedTab := .overview
  cachedFinding := none
  cachedHotFunctions := none
  cachedSyscalls := none
  pendingSignal := none
  lastSignalResult := none
  lastExportResult := none
  selectedSignal := .term

def new (intel : ProcessIntelligence) (t : Tick) : SherApp := (blank intel).refresh t

/-- None where the source would panic. -/
def why (app : SherApp) (order : Visit HistoryKey) (live : LiveReads) (tab : DetailTab) (pid : Pid) :
    Option Finding :=
  match tab with
  | .cpu => whyCpu app.intel live pid
  | .memory => whyMemory app.intel order live pid
  | .network => whyNetwork app.intel live pid
  | .disk => whyDisk app.intel live pid
  | _ => none

def findingFor (app : SherApp) (order : Visit HistoryKey) (live : LiveReads) (tab : DetailTab) (pid : Pid) :
    Option SherApp :=
  if app.cachedFinding.any fun cached => cached.pid = pid ∧ cached.tab = tab then some app
  else (app.why order live tab pid).map fun finding => { app with cachedFinding := some ⟨pid, tab, finding⟩ }

def askWhy (app : SherApp) (order : Visit HistoryKey) (live : LiveReads) (tab : DetailTab) (pid : Pid) :
    Option SherApp :=
  findingFor { app with cachedFinding := none } order live tab pid

def toggle (app : SherApp) (pid : Pid) (expanded : Bool) : SherApp :=
  { app with expanded := if expanded then insert pid app.expanded else app.expanded.erase pid }

def select (app : SherApp) (pid : Pid) : SherApp :=
  { app with
    selected := some pid
    cachedFinding := none
    cachedHotFunctions := none
    cachedSyscalls := none
    pendingSignal := none
    lastSignalResult := none
    lastExportResult := none }

def rows (lower : Lowercase) (rootOrder : Visit Pid) (treeOrder : Visit ProcessSnapshot) (fuel : ℕ)
    (app : SherApp) : Option (List TreeRow) :=
  flattenTree lower rootOrder (app.intel.tree treeOrder) app.expanded app.filter fuel

/-- The row is on the screen, in whatever order the tables were visited. -/
def Draws (lower : Lowercase) (app : SherApp) (row : TreeRow) : Prop :=
  ∃ rootOrder treeOrder fuel drawn, app.rows lower rootOrder treeOrder fuel = some drawn ∧ row ∈ drawn ∧
    row.pid ∈ (app.intel.tree treeOrder).nodes

def Details (app : SherApp) (tab : DetailTab) (process : HistoryKey) : Prop :=
  app.selected = some process.1 ∧ app.selectedTab = tab ∧
    ∃ snapshot, app.intel.process process.1 = some snapshot ∧ snapshot.startTime = process.2

end SherApp

/-- The window and the kernel's log; a call blocks the window until it is finished. -/
structure Window where
  app : SherApp
  log : List Event
  call : Option (ℕ × HistoryKey × Signal × Interaction SysCall SysCall.Answer (Result Unit))
  nextId : ℕ

/-- One step of the kernel, or one click. A widget is clicked only where it is drawn. -/
inductive Step (adapter : LinuxAdapter) (lower : Lowercase) (w : Window) : Window → Prop
  | start (process : HistoryKey) (h : Control.Possible adapter.root w.log (.started process)) :
      Step adapter lower w { w with log := w.log ++ [.started process] }
  | stop (process : HistoryKey) (h : Control.Possible adapter.root w.log (.ended process)) :
      Step adapter lower w { w with log := w.log ++ [.ended process] }
  | refresh (t : Tick) (idle : w.call = none) : Step adapter lower w { w with app := w.app.refresh t }
  | search (filter : String) (idle : w.call = none) :
      Step adapter lower w { w with app := { w.app with filter := filter } }
  | toggle (row : TreeRow) (expanded : Bool) (idle : w.call = none) (drawn : w.app.Draws lower row)
      (hasChildren : row.hasChildren) : Step adapter lower w { w with app := w.app.toggle row.pid expanded }
  | select (row : TreeRow) (idle : w.call = none) (drawn : w.app.Draws lower row) :
      Step adapter lower w { w with app := w.app.select row.pid }
  | openTab (old tab : DetailTab) (process : HistoryKey) (idle : w.call = none)
      (details : w.app.Details old process) : Step adapter lower w { w with app := { w.app with selectedTab := tab } }
  | why (tab : DetailTab) (process : HistoryKey) (order : Visit HistoryKey) (live : LiveReads) (app : SherApp)
      (idle : w.call = none) (details : w.app.Details tab process) (asks : tab.AsksWhy)
      (answered : w.app.askWhy order live tab process.1 = some app) : Step adapter lower w { w with app := app }
  | profile (process : HistoryKey) (result : Result (List HotFunction)) (idle : w.call = none)
      (details : w.app.Details .cpu process) :
      Step adapter lower w { w with app := { w.app with cachedHotFunctions := some (process.1, result) } }
  | trace (process : HistoryKey) (result : Result (List SyscallStat)) (idle : w.call = none)
      (details : w.app.Details .cpu process) :
      Step adapter lower w { w with app := { w.app with cachedSyscalls := some (process.1, result) } }
  | exportReport (process : HistoryKey) (result : Except String String) (idle : w.call = none)
      (details : w.app.Details .overview process) :
      Step adapter lower w { w with app := { w.app with lastExportResult := some (process.1, result) } }
  | pick (process : HistoryKey) (signal : Signal) (idle : w.call = none)
      (details : w.app.Details .overview process) :
      Step adapter lower w { w with app := { w.app with selectedSignal := signal } }
  -- Two buttons have their own signal, the third sends the one that is picked.
  | request (process : HistoryKey) (signal : Signal) (idle : w.call = none)
      (details : w.app.Details .overview process) (offered : signal ∈ [.term, .kill, w.app.selectedSignal]) :
      Step adapter lower w { w with app := { w.app with pendingSignal := some (process, signal) } }
  -- The prompt is drawn for the pid that is shown, whatever generation it was clicked for.
  | cancel (shown : HistoryKey) (chosen : HistoryKey) (signal : Signal) (idle : w.call = none)
      (details : w.app.Details .overview shown) (pending : w.app.pendingSignal = some (chosen, signal))
      (same : chosen.1 = shown.1) :
      Step adapter lower w { w with app := { w.app with pendingSignal := none } }
  | confirm (shown : HistoryKey) (chosen : HistoryKey) (signal : Signal) (idle : w.call = none)
      (details : w.app.Details .overview shown) (pending : w.app.pendingSignal = some (chosen, signal))
      (same : chosen.1 = shown.1) :
      Step adapter lower w { w with
        log := w.log ++ [.confirmed w.nextId chosen signal]
        call := some (w.nextId, chosen, signal, Control.verifiedCall adapter chosen signal)
        nextId := w.nextId + 1 }
  | answer (id : ℕ) (chosen : HistoryKey) (signal : Signal) (call : SysCall)
      (next : call.Answer → Interaction SysCall SysCall.Answer (Result Unit)) (answer : call.Answer)
      (reached : List HistoryKey) (running : w.call = some (id, chosen, signal, .ask call next))
      (h : Control.Possible adapter.root w.log (.answered id call answer reached)) :
      Step adapter lower w { w with
        log := w.log ++ [.answered id call answer reached]
        call := some (id, chosen, signal, next answer) }
  | finish (id : ℕ) (chosen : HistoryKey) (signal : Signal) (result : Result Unit)
      (running : w.call = some (id, chosen, signal, .pure result)) :
      Step adapter lower w { w with
        app := { w.app with lastSignalResult := some (chosen.1, signal, result), pendingSignal := none }
        call := none }

abbrev Leads (adapter : LinuxAdapter) (lower : Lowercase) : Window → Window → Prop :=
  ReflTransGen (Step adapter lower)

def opened (t : Tick) : Window := ⟨.new .new t, [], none, 0⟩

/-- The window as the workflow that its clicks are steps of. -/
def Window.workflow (w : Window) : Control.State where
  log := w.log
  intel := w.app.intel
  selected := w.app.selected
  pending := w.app.pendingSignal
  call := w.call.map fun call => (call.1, call.2.2.2)
  nextId := w.nextId

@[simp] theorem refresh_intel (app : SherApp) (t : Tick) : (app.refresh t).intel = (app.intel.refreshAt t).1 := by
  rw [SherApp.refresh]
  rcases app.intel.refreshAt t with ⟨intel, _ | _⟩ <;> rfl

theorem refresh_eq (app : SherApp) (t : Tick) : ∃ intel error,
    app.refresh t = { app with intel := intel, refreshError := error } := by
  rw [SherApp.refresh]
  rcases app.intel.refreshAt t with ⟨intel, e | _⟩
  · exact ⟨intel, some e, rfl⟩
  · exact ⟨intel, none, rfl⟩

theorem opened_eq (t : Tick) : ∃ error, opened t = ⟨{ SherApp.blank .new with
    intel := (ProcessIntelligence.refreshAt .new t).1, refreshError := error }, [], none, 0⟩ := by
  obtain ⟨intel, error, heq⟩ := refresh_eq (SherApp.blank .new) t
  have hintel : ((SherApp.blank .new).refresh t).intel = (ProcessIntelligence.refreshAt .new t).1 := refresh_intel _ t
  rw [opened, SherApp.new, ← hintel, heq]
  exact ⟨error, rfl⟩

end ProcessExplorer.Gui
