import ProcessExplorer.Cli.Output
import ProcessExplorer.History.Queries
import ProcessExplorer.Intelligence.Refresh
import ProcessExplorer.Library.Grouping

/-! What the command line prints of the persistent history of a pid: one block a generation. -/
namespace ProcessExplorer.Cli
open Library Model Daemon History Intelligence

/-- What is listed of one generation. -/
structure Generation where
  snapshots : List (Int64 × ProcessSnapshot)
  events : List TimelineEvent

def Generation.addSnapshot (generation : Generation) (sample : Int64 × ProcessSnapshot) : Generation :=
  { generation with snapshots := generation.snapshots ++ [sample] }

def Generation.addEvent (generation : Generation) (event : TimelineEvent) : Generation :=
  { generation with events := generation.events ++ [event] }

/-- Keyed by the start time. -/
abbrev Generations := Grouping.OrderedMap UInt64 Generation

def pushSnapshot (generations : Generations) (sample : Int64 × ProcessSnapshot) : Generations :=
  Grouping.pushUnder ⟨[], []⟩ generations sample.2.startTime fun generation => generation.addSnapshot sample

def pushEvent (generations : Generations) (event : TimelineEvent) : Generations :=
  Grouping.pushUnder ⟨[], []⟩ generations event.startTime fun generation => generation.addEvent event

def group (snapshots : List (Int64 × ProcessSnapshot)) (events : List TimelineEvent) : Generations :=
  events.foldl pushEvent (snapshots.foldl pushSnapshot ∅)

/-- What the command prints through the standard library, SQLite and serde_json. -/
structure HistoryTexts where
  /-- Which characters that are not ASCII stand for themselves when they are printed with {:?}. -/
  isPrintable : Char → Bool
  error : HistoryError → String
  toStringPretty : List (Int64 × ProcessSnapshot) → List TimelineEvent → Except String String

section Lines
variable (texts : HistoryTexts)

/-- A character printed with {:?}; of the two quotes only the one it stands in is escaped. -/
def debugChar (c : Char) : String :=
  let standsForItself := if c.toNat < 128 then 32 ≤ c.toNat && c.toNat < 127 else texts.isPrintable c
  let shown := match c with
    | '\x00' => "\\0"
    | '\t' => "\\t"
    | '\r' => "\\r"
    | '\n' => "\\n"
    | '\\' => "\\\\"
    | '\'' => "\\'"
    | c =>
      if standsForItself then c.toString
      else "\\u\x7b" ++ String.ofList (Nat.toDigits 16 c.toNat) ++ "\x7d"
  "'" ++ shown ++ "'"

def debugState : ProcessState → String
  | .running => "Running"
  | .sleeping => "Sleeping"
  | .diskSleep => "DiskSleep"
  | .zombie => "Zombie"
  | .stopped => "Stopped"
  | .tracingStop => "TracingStop"
  | .dead => "Dead"
  | .idle => "Idle"
  | .unknown c => "Unknown(" ++ debugChar texts c ++ ")"

def snapshotLine (sample : Int64 × ProcessSnapshot) : String :=
  "[" ++ toString sample.1 ++ "] " ++ sample.2.name ++ " rss=" ++ toString (sample.2.memory.rss / 1024) ++
    " KB cpu=" ++ oneDecimal sample.2.cpu.percent ++ "% state=" ++ debugState texts sample.2.state

def eventLine (event : TimelineEvent) : String := "[" ++ toString event.observedAt ++ "] " ++ event.description

def block (pid : Pid) (startTime : UInt64) (generation : Generation) : List String :=
  ("=== pid " ++ toString pid ++ " generation (start_time " ++ toString startTime ++ ") ===") ::
    ("--- Snapshots (" ++ toString generation.snapshots.length ++ ") ---") ::
    (generation.snapshots.map (snapshotLine texts) ++
      ("--- Timeline events (" ++ toString generation.events.length ++ ") ---") :: generation.events.map eventLine)

def blocks (pid : Pid) (generations : List (UInt64 × Generation)) : List String :=
  generations.flatMap fun entry => block texts pid entry.1 entry.2

def noHistoryLine (pid : Pid) (sinceSecs : Int64) : String :=
  "(no persisted history for pid " ++ toString pid ++ " in the last " ++ toString sinceSecs ++
    "s — either sherd isn't running, or this pid has no recorded activity in that window)"

def negativeSinceError (sinceSecs : Int64) : CommandOutput :=
  ⟨2, [], ["sher: --since-secs must not be negative (got " ++ toString sinceSecs ++ ")"]⟩

/-- The database may fail to open. -/
def history (reread : FloatReader) (dbPath : String) (opened : Except HistoryError HistoryStore)
    (snapshotOrder : OrderBy SnapshotRow Int64) (eventOrder : OrderBy EventRow Int64) (pid : Pid)
    (sinceSecs nowUnix : Int64) (json : Bool) : CommandOutput :=
  if sinceSecs < 0 then negativeSinceError sinceSecs
  else
    match opened with
    | .error e =>
      ⟨1, [], ["sher: failed to open history database at " ++ dbPath ++ ": " ++ texts.error e,
        "(is sherd running? see `sherd --help`)"]⟩
    | .ok store =>
      let since := nowUnix - sinceSecs
      match store.snapshotsFor reread pid since snapshotOrder with
      | .error e => ⟨1, [], ["sher: failed to read snapshot history: " ++ texts.error e]⟩
      | .ok snapshots =>
        match store.eventsFor reread pid since eventOrder with
        | .error e => ⟨1, [], ["sher: failed to read timeline history: " ++ texts.error e]⟩
        | .ok events =>
          if json then printJson (texts.toStringPretty snapshots events)
          else if snapshots.isEmpty ∧ events.isEmpty then ⟨0, [noHistoryLine pid sinceSecs], []⟩
          else ⟨0, blocks texts pid (group snapshots events).toList, []⟩

end Lines

theorem foldl_snapshots (generation : Generation) (samples : List (Int64 × ProcessSnapshot)) :
    samples.foldl Generation.addSnapshot generation = { generation with snapshots := generation.snapshots ++ samples } := by
  induction samples generalizing generation with
  | nil => simp
  | cons sample samples ih => simp [Generation.addSnapshot, ih]

theorem foldl_events (generation : Generation) (events : List TimelineEvent) :
    events.foldl Generation.addEvent generation = { generation with events := generation.events ++ events } := by
  induction events generalizing generation with
  | nil => simp
  | cons event events ih => simp [Generation.addEvent, ih]

/-- A start time has a block when something was recorded with it, and the block lists just that. -/
theorem getElem?_group (snapshots : List (Int64 × ProcessSnapshot)) (events : List TimelineEvent)
    (startTime : UInt64) : (group snapshots events)[startTime]? =
      if snapshots.filter (·.2.startTime = startTime) = [] ∧ events.filter (·.startTime = startTime) = [] then none
      else some ⟨snapshots.filter (·.2.startTime = startTime), events.filter (·.startTime = startTime)⟩ := by
  have hsnapshots := Grouping.getElem?_foldl_pushUnder (⟨[], []⟩ : Generation)
    (fun sample : Int64 × ProcessSnapshot => sample.2.startTime) Generation.addSnapshot snapshots ∅ startTime
  have hevents := Grouping.getElem?_foldl_pushUnder (⟨[], []⟩ : Generation) TimelineEvent.startTime
    Generation.addEvent events (snapshots.foldl pushSnapshot ∅) startTime
  change (group snapshots events)[startTime]? = _ at hevents
  change (snapshots.foldl pushSnapshot ∅)[startTime]? = _ at hsnapshots
  rw [hevents, hsnapshots, foldl_snapshots, foldl_events]
  have hnew : (∅ : Generations)[startTime]? = none := Std.TreeMap.getElem?_emptyc
  by_cases hs : snapshots.filter (·.2.startTime = startTime) = []
  · by_cases he : events.filter (·.startTime = startTime) = [] <;> simp only [hs, he, hnew] <;> simp
  · by_cases he : events.filter (·.startTime = startTime) = [] <;> simp only [hs, he, hnew] <;> simp

/-- The blocks are in ascending order, none is empty, and each lists the rows of its generation from the time on,
sorted by time. -/
structure PrintsGenerations (snapshots : List (Int64 × ProcessSnapshot)) (events : List TimelineEvent) (pid : Pid)
    (since : Int64) (generations : List (UInt64 × Generation)) : Prop where
  ascending : (generations.map (·.1)).Pairwise (· < ·)
  listed : ∀ startTime, startTime ∈ generations.map (·.1) ↔
    (∃ x ∈ snapshots, x.2.pid = pid ∧ x.2.startTime = startTime ∧ since ≤ x.1) ∨
      ∃ e ∈ events, e.pid = pid ∧ e.startTime = startTime ∧ since ≤ e.observedAt
  snapshots : ∀ entry ∈ generations, (entry.2.snapshots.map (·.1)).Pairwise (· ≤ ·) ∧ entry.2.snapshots.Perm
    (snapshots.filter fun x => x.2.pid = pid ∧ x.2.startTime = entry.1 ∧ since ≤ x.1)
  events : ∀ entry ∈ generations, (entry.2.events.map (·.observedAt)).Pairwise (· ≤ ·) ∧ entry.2.events.Perm
    (events.filter fun e => e.pid = pid ∧ e.startTime = entry.1 ∧ since ≤ e.observedAt)

section OneKey
variable {β : Type} {time : β → Int64} {key : β → UInt64} {wanted asked : β → Prop} [DecidablePred wanted]
  [DecidablePred asked] {items items' : List β} {k : UInt64}

/-- The items of one key are those wanted that have this key, still in order. -/
theorem lists_key (hsorted : (items.map time).Pairwise (· ≤ ·)) (hperm : items.Perm (items'.filter fun x => wanted x))
    (hasked : ∀ x, asked x ↔ wanted x ∧ key x = k) :
    ((items.filter (key · = k)).map time).Pairwise (· ≤ ·) ∧
      (items.filter (key · = k)).Perm (items'.filter fun x => asked x) := by
  refine ⟨hsorted.sublist (List.filter_sublist.map _), ?_⟩
  have hfiltered := hperm.filter (key · = k)
  rw [List.filter_filter] at hfiltered
  refine hfiltered.trans (.of_eq (List.filter_congr fun x _ => ?_))
  simp only [← Bool.decide_and, hasked, and_comm]

omit [DecidablePred asked] in
theorem filter_key_eq_nil_iff (hperm : items.Perm (items'.filter fun x => wanted x))
    (hasked : ∀ x, asked x ↔ wanted x ∧ key x = k) :
    items.filter (key · = k) = [] ↔ ¬ ∃ x ∈ items', asked x := by
  rw [List.filter_eq_nil_iff, not_exists]
  refine forall_congr' fun x => ?_
  rw [hperm.mem_iff, List.mem_filter, hasked, decide_eq_true_iff, decide_eq_true_iff]
  tauto

end OneKey

theorem printsGenerations_group {snapshots snapshots' : List (Int64 × ProcessSnapshot)}
    {events events' : List TimelineEvent} {pid : Pid} {since : Int64}
    (hs : (snapshots.map (·.1)).Pairwise (· ≤ ·)) (he : (events.map (·.observedAt)).Pairwise (· ≤ ·))
    (hs' : snapshots.Perm (snapshots'.filter fun x => x.2.pid = pid ∧ since ≤ x.1))
    (he' : events.Perm (events'.filter fun e => e.pid = pid ∧ since ≤ e.observedAt)) :
    PrintsGenerations snapshots' events' pid since (group snapshots events).toList := by
  have hasked (x : Int64 × ProcessSnapshot) (startTime : UInt64) :
      (x.2.pid = pid ∧ x.2.startTime = startTime ∧ since ≤ x.1) ↔
        (x.2.pid = pid ∧ since ≤ x.1) ∧ x.2.startTime = startTime := by tauto
  have hasked' (e : TimelineEvent) (startTime : UInt64) :
      (e.pid = pid ∧ e.startTime = startTime ∧ since ≤ e.observedAt) ↔
        (e.pid = pid ∧ since ≤ e.observedAt) ∧ e.startTime = startTime := by tauto
  have hentry {entry : UInt64 × Generation} (h : entry ∈ (group snapshots events).toList) :
      entry.2 = ⟨snapshots.filter (·.2.startTime = entry.1), events.filter (·.startTime = entry.1)⟩ := by
    rw [Std.TreeMap.mem_toList_iff_getElem?_eq_some, getElem?_group] at h
    split_ifs at h
    exact (Option.some.inj h).symm
  refine ⟨?_, fun startTime => ?_, fun entry hm => ?_, fun entry hm => ?_⟩
  · rw [List.pairwise_map]
    exact Std.TreeMap.ordered_keys_toList.imp Std.compare_eq_lt.mp
  · have hkey : startTime ∈ (group snapshots events).toList.map (·.1) ↔
        ¬ (snapshots.filter (·.2.startTime = startTime) = [] ∧ events.filter (·.startTime = startTime) = []) := by
      simp only [List.mem_map, Prod.exists, exists_and_right, exists_eq_right,
        Std.TreeMap.mem_toList_iff_getElem?_eq_some, getElem?_group]
      split_ifs with h
      · simp [h]
      · simpa using h
    rw [hkey, filter_key_eq_nil_iff hs' fun x => hasked x startTime,
      filter_key_eq_nil_iff he' fun e => hasked' e startTime, ← not_or, not_not]
  · rw [hentry hm]
    exact lists_key hs hs' fun x => hasked x entry.1
  · rw [hentry hm]
    exact lists_key he he' fun e => hasked' e entry.1

/-- A block for each generation, or a line that there is none. -/
def plainLines (texts : HistoryTexts) (pid : Pid) (sinceSecs : Int64) (generations : List (UInt64 × Generation)) :
    List String :=
  if generations = [] then [noHistoryLine pid sinceSecs] else blocks texts pid generations

theorem group_toList_eq_nil_iff {snapshots : List (Int64 × ProcessSnapshot)} {events : List TimelineEvent} :
    (group snapshots events).toList = [] ↔ snapshots = [] ∧ events = [] := by
  constructor
  · intro hnil
    have hfilter (startTime : UInt64) :
        snapshots.filter (·.2.startTime = startTime) = [] ∧ events.filter (·.startTime = startTime) = [] := by
      by_contra hsome
      have hentry := Std.TreeMap.mem_toList_iff_getElem?_eq_some.mpr
        ((getElem?_group snapshots events startTime).trans (if_neg hsome))
      rw [hnil] at hentry
      cases hentry
    constructor
    · refine List.eq_nil_iff_forall_not_mem.mpr fun x hx => ?_
      simpa using List.filter_eq_nil_iff.mp (hfilter x.2.startTime).1 x hx
    · refine List.eq_nil_iff_forall_not_mem.mpr fun e he => ?_
      simpa using List.filter_eq_nil_iff.mp (hfilter e.startTime).2 e he
  · rintro ⟨rfl, rfl⟩
    rfl

/-- After any calls on a fresh store, what is printed for a pid is what was recorded of it since then and kept, apart
by generations and as it is read back. A negative window is refused before the store is asked. -/
theorem history_prints_generations (texts : HistoryTexts) (reread : FloatReader) (dbPath : String)
    (calls : List HistoryCall) (snapshotOrder : OrderBy SnapshotRow Int64) (eventOrder : OrderBy EventRow Int64)
    (pid : Pid) (sinceSecs nowUnix : Int64) :
    let output := history texts reread dbPath (.ok (HistoryStore.openInMemory.after calls)) snapshotOrder eventOrder
      pid sinceSecs nowUnix
    (sinceSecs < 0 → ∀ json, output json = negativeSinceError sinceSecs) ∧
    (¬ sinceSecs < 0 → ∃ generations, output false = ⟨0, plainLines texts pid sinceSecs generations, []⟩ ∧
      PrintsGenerations ((snapshotsKept calls).map (sampleReadBack reread))
        ((eventsKept calls).map (·.readBack reread)) pid (nowUnix - sinceSecs) generations) := by
  have hanswers := answersFrom_after reread calls
  obtain ⟨snapshots, hsnapshots, hs, hs'⟩ := hanswers.snapshots_for snapshotOrder pid (nowUnix - sinceSecs)
  obtain ⟨events, hevents, he, he'⟩ := hanswers.events_for eventOrder pid (nowUnix - sinceSecs)
  refine ⟨fun hneg json => if_pos hneg, fun hpos => ?_⟩
  refine ⟨(group snapshots events).toList, ?_, printsGenerations_group hs he hs' he'⟩
  simp only [history, if_neg hpos, hsnapshots, hevents, plainLines, group_toList_eq_nil_iff, List.isEmpty_iff,
    Bool.false_eq_true, if_false]
  split_ifs <;> rfl

end ProcessExplorer.Cli
