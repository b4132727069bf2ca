import ProcessExplorer.Intelligence.OwnEvents
import ProcessExplorer.Intelligence.UnspecifiedPeers
import ProcessExplorer.Telemetry.Linux.TornReads

/-! refresh_at over files that change while it reads them: its accesses one by one, and their answers
collected into the one tick that the other modules reason about. -/
namespace ProcessExplorer.Intelligence
open Library Model Telemetry Telemetry.Linux

/-- A call of refresh_at, less what the adapter answers. -/
structure Call where
  now : Int64
  addrOrder : Pid → Visit String
  exitOrder : Visit HistoryKey
  staleOrder : Visit HistoryKey

def Call.tick (call : Call) (answers : TelemetryAdapter) : Tick where
  now := call.now
  adapter := answers
  addrOrder := call.addrOrder
  exitOrder := call.exitOrder
  staleOrder := call.staleOrder

/-- The answers for one process, given to every pid. -/
def answering (read : Result ProcessSnapshot) (conns : Result (List NetworkConnection)) : TelemetryAdapter where
  listPids := .ok []
  process _ := read
  connections _ := conns

/-- What a read of connections comes to; there is no result where it panics. -/
def connectionsOf : Result (Option (List NetworkConnection)) → Option (Result (List NetworkConnection))
  | .error e => some (.error e)
  | .ok none => none
  | .ok (some conns) => some (.ok conns)

section Program
variable (adapter : LinuxAdapter) (s : ProcessIntelligence) (call : Call)

/-- One iteration of the loop with the accesses it makes. -/
def visit (p : Pass) (pid : Pid) : Interaction Access Access.Answer (Option Pass) := do
  match ← (adapter.process pid).run with
  | .error _ => pure (some p)
  | .ok read =>
    let conns ← (adapter.connections pid).run.run
    pure ((connectionsOf conns).map fun conns => observe s (call.tick (answering (.ok read) conns)) p pid)

def visits : List Pid → Pass → Interaction Access Access.Answer (Option Pass)
  | [], p => pure (some p)
  | pid :: pids, p => do
    match ← visit adapter s call p pid with
    | none => pure none
    | some p => visits pids p

def refreshOver : Interaction Access Access.Answer (Option (ProcessIntelligence × Result Unit)) := do
  let s := s.drainStale
  match ← adapter.listPids.run with
  | .error e => pure (some (s, .error e))
  | .ok pids =>
    let p ← visits adapter s call pids s.passStart
    pure (p.map fun p => (s.commit (call.tick (answering (.error (.notFound 0)) (.ok []))) p, .ok ()))

/-- One call after the other, whether they fail or not. -/
def refreshing : List Call → ProcessIntelligence → Interaction Access Access.Answer (Option ProcessIntelligence)
  | [], s => pure (some s)
  | call :: calls, s => do
    match ← refreshOver adapter s call with
    | none => pure none
    | some (s, _) => refreshing calls s

end Program

/-- The transcript holds the accesses from which these answers about a pid were made. -/
structure Answered (adapter : LinuxAdapter) (t : Interaction.Transcript Access Access.Answer)
    (answers : TelemetryAdapter) (pid : Pid) : Prop where
  process : ∃ part, part <:+: t ∧ (adapter.process pid).run.Reaches part (.pure (answers.process pid))
  connections : ∀ read, answers.process pid = .ok read → ∃ part conns, part <:+: t ∧
    (adapter.connections pid).run.run.Reaches part (.pure conns) ∧
    connectionsOf conns = some (answers.connections pid)

theorem Answered.mono {adapter : LinuxAdapter} {t t' : Interaction.Transcript Access Access.Answer}
    {answers : TelemetryAdapter} {pid : Pid} (h : Answered adapter t answers pid) (ht : t <:+: t') :
    Answered adapter t' answers pid := by
  obtain ⟨⟨part, hpart, hprocess⟩, hconnections⟩ := h
  refine ⟨⟨part, hpart.trans ht, hprocess⟩, fun read hr => ?_⟩
  obtain ⟨part, conns, hpart, hconns⟩ := hconnections read hr
  exact ⟨part, conns, hpart.trans ht, hconns⟩

/-- An iteration looks at the answers for its own pid only. -/
theorem observe_congr (s : ProcessIntelligence) (call : Call) {a b : TelemetryAdapter} {pid : Pid}
    (hprocess : a.process pid = b.process pid)
    (hconnections : ∀ read, b.process pid = .ok read → a.connections pid = b.connections pid) (p : Pass) :
    observe s (call.tick a) p pid = observe s (call.tick b) p pid := by
  cases hread : b.process pid with
  | error e => simp [observe, Call.tick, hprocess, hread]
  | ok read =>
    have hconns := hconnections read hread
    simp [observe, Call.tick, hprocess, hread, hconns]

section Collect
variable {adapter : LinuxAdapter} {s : ProcessIntelligence} {call : Call} {p p' : Pass} {pid : Pid} {pids : List Pid}
  {t : Interaction.Transcript Access Access.Answer}

/-- An iteration that comes to an end is one over some answers for its pid. -/
theorem visit_eq_observe (h : (visit adapter s call p pid).Reaches t (.pure (some p'))) :
    ∃ read conns, p' = observe s (call.tick (answering read conns)) p pid ∧
      Answered adapter t (answering read conns) pid := by
  obtain ⟨t₁, t₂, read, rfl, hprocess, hrest⟩ := h.of_bind_pure
  have hfirst : t₁ <:+: t₁ ++ t₂ := (List.prefix_append _ _).isInfix
  cases read with
  | error e =>
    obtain ⟨-, hp⟩ := hrest.of_pure
    refine ⟨.error e, .ok [], ?_, ⟨t₁, hfirst, hprocess⟩, fun read hr => by cases hr⟩
    simpa [observe, Call.tick, answering] using hp
  | ok read =>
    obtain ⟨t₃, t₄, conns, rfl, hconns, hend⟩ := hrest.of_bind_pure
    obtain ⟨rfl, hp⟩ := hend.of_pure
    obtain ⟨conns', hc, hp'⟩ := Option.map_eq_some_iff.mp (Interaction.pure.inj hp).symm
    refine ⟨.ok read, conns', hp'.symm, ⟨t₁, hfirst, hprocess⟩, fun _ _ => ⟨t₃, conns, ?_, hconns, hc⟩⟩
    exact ⟨t₁, [], by simp⟩

/-- A loop that comes to an end is one over some answers, if it visits no pid twice. -/
theorem visits_eq_foldl (hd : pids.Nodup) (h : (visits adapter s call pids p).Reaches t (.pure (some p'))) :
    ∃ answers : TelemetryAdapter, p' = pids.foldl (observe s (call.tick answers)) p ∧
      ∀ pid ∈ pids, Answered adapter t answers pid := by
  induction pids generalizing p t with
  | nil =>
    obtain ⟨-, hp⟩ := h.of_pure
    exact ⟨answering (.error (.notFound 0)) (.ok []), by simpa using hp, by simp⟩
  | cons pid pids ih =>
    obtain ⟨t₁, t₂, next, rfl, hvisit, hrest⟩ := h.of_bind_pure
    cases next with
    | none => cases hrest.of_pure.2
    | some p₁ =>
      obtain ⟨read, conns, rfl, hanswered⟩ := visit_eq_observe hvisit
      obtain ⟨hfirst, hd⟩ := List.nodup_cons.mp hd
      obtain ⟨answers, rfl, hlater⟩ := ih hd hrest
      let all : TelemetryAdapter := { answers with
        process := Function.update answers.process pid read
        connections := Function.update answers.connections pid conns }
      have hself : all.process pid = read ∧ all.connections pid = conns :=
        ⟨Function.update_self .., Function.update_self ..⟩
      have hothers : ∀ q ∈ pids, all.process q = answers.process q ∧ all.connections q = answers.connections q := by
        intro q hq
        have hne : q ≠ pid := fun h => hfirst (h ▸ hq)
        exact ⟨Function.update_of_ne hne .., Function.update_of_ne hne ..⟩
      refine ⟨all, ?_, ?_⟩
      · rw [List.foldl_cons, observe_congr s call (a := all) (b := answering read conns) hself.1 fun _ _ => hself.2]
        exact List.foldl_ext _ _ _ fun p' q hq =>
          (observe_congr s call (hothers q hq).1 (fun _ _ => (hothers q hq).2) p').symm
      · intro q hq
        rcases List.mem_cons.mp hq with rfl | hq
        · have hmono := hanswered.mono (List.prefix_append t₁ t₂).isInfix
          exact ⟨hself.1 ▸ hmono.process, by rw [hself.1, hself.2]; exact hmono.connections⟩
        · have hmono := (hlater q hq).mono (List.suffix_append t₁ t₂).isInfix
          exact ⟨(hothers q hq).1 ▸ hmono.process, by
            rw [(hothers q hq).1, (hothers q hq).2]; exact hmono.connections⟩

/-- Every listing names a pid once. -/
def ListsOnce (adapter : LinuxAdapter) (t : Interaction.Transcript Access Access.Answer) : Prop :=
  ∀ part pids, part <:+: t → adapter.listPids.run.Reaches part (.pure (.ok pids)) → pids.Nodup

theorem ListsOnce.of_infix (h : ListsOnce adapter t) {part : Interaction.Transcript Access Access.Answer}
    (hpart : part <:+: t) : ListsOnce adapter part :=
  fun part' pids hp => h part' pids (hp.trans hpart)

/-- The answers of a tick are those of the accesses in a transcript. -/
structure Backed (adapter : LinuxAdapter) (t : Interaction.Transcript Access Access.Answer) (tick : Tick) : Prop where
  listed : ∃ part, part <:+: t ∧ adapter.listPids.run.Reaches part (.pure tick.adapter.listPids)
  answered : ∀ pids, tick.adapter.listPids = .ok pids → ∀ pid ∈ pids, Answered adapter t tick.adapter pid
  distinct : tick.Distinct

theorem Backed.mono {tick : Tick} (h : Backed adapter t tick) {t' : Interaction.Transcript Access Access.Answer}
    (ht : t <:+: t') : Backed adapter t' tick := by
  obtain ⟨⟨part, hpart, hlisted⟩, hanswered, hdistinct⟩ := h
  exact ⟨⟨part, hpart.trans ht, hlisted⟩, fun pids hl pid hm => (hanswered pids hl pid hm).mono ht, hdistinct⟩

/-- A call over moving files does what a call does that has all its answers from the start. -/
theorem refreshOver_eq_refreshAt {result : ProcessIntelligence × Result Unit} (honce : ListsOnce adapter t)
    (h : (refreshOver adapter s call).Reaches t (.pure (some result))) :
    ∃ answers, result = s.refreshAt (call.tick answers) ∧ Backed adapter t (call.tick answers) := by
  obtain ⟨t₁, t₂, listed, rfl, hlist, hrest⟩ := h.of_bind_pure
  have hfirst : t₁ <:+: t₁ ++ t₂ := (List.prefix_append _ _).isInfix
  cases listed with
  | error e =>
    obtain ⟨-, hresult⟩ := hrest.of_pure
    refine ⟨⟨.error e, fun _ => .error e, fun _ => .error e⟩, ?_, ⟨t₁, hfirst, hlist⟩, nofun, nofun⟩
    exact (Option.some.inj (Interaction.pure.inj hresult))
  | ok pids =>
    have hd := honce t₁ pids hfirst hlist
    obtain ⟨t₃, t₄, last, rfl, hvisits, hend⟩ := hrest.of_bind_pure
    obtain ⟨rfl, hresult⟩ := hend.of_pure
    obtain ⟨p, rfl, rfl⟩ := Option.map_eq_some_iff.mp (Interaction.pure.inj hresult).symm
    obtain ⟨answers, rfl, hanswered⟩ := visits_eq_foldl hd hvisits
    refine ⟨{ answers with listPids := .ok pids }, ?_, ⟨t₁, hfirst, hlist⟩, ?_, ?_⟩
    · rfl
    · intro pids' hl pid hm
      obtain rfl := Except.ok.inj hl
      have hinfix : t₃ <:+: t₁ ++ (t₃ ++ []) := ⟨t₁, [], by simp⟩
      obtain ⟨hprocess, hconnections⟩ := (hanswered pid hm).mono hinfix
      exact ⟨hprocess, hconnections⟩
    · intro pids' hl
      obtain rfl := Except.ok.inj hl
      exact hd

end Collect

def Tick.call (t : Tick) : Call := ⟨t.now, t.addrOrder, t.exitOrder, t.staleOrder⟩

/-- A run over moving files is a run of ticks: each has the answers of its own part of the accesses. -/
theorem refreshing_eq_run {adapter : LinuxAdapter} {calls : List Call} {s s' : ProcessIntelligence}
    {t : Interaction.Transcript Access Access.Answer} (honce : ListsOnce adapter t)
    (h : (refreshing adapter calls s).Reaches t (.pure (some s'))) :
    ∃ parts ticks, t = parts.flatten ∧ List.Forall₂ (Backed adapter) parts ticks ∧
      ticks.map Tick.call = calls ∧ s' = service.run s ticks := by
  induction calls generalizing s t with
  | nil =>
    obtain ⟨rfl, hs⟩ := h.of_pure
    exact ⟨[], [], rfl, .nil, rfl, Option.some.inj (Interaction.pure.inj hs)⟩
  | cons call calls ih =>
    obtain ⟨t₁, t₂, result, rfl, hcall, hrest⟩ := h.of_bind_pure
    cases result with
    | none => cases hrest.of_pure.2
    | some result =>
      obtain ⟨answers, rfl, hbacked⟩ := refreshOver_eq_refreshAt
        (honce.of_infix (List.prefix_append t₁ t₂).isInfix) hcall
      obtain ⟨parts, ticks, rfl, hparts, rfl, rfl⟩ := ih (honce.of_infix (List.suffix_append t₁ t₂).isInfix) hrest
      exact ⟨t₁ :: parts, call.tick answers :: ticks, rfl, .cons hbacked hparts, rfl, rfl⟩

/-- Where the root does not change, every listing is the same. -/
theorem listsOnce_of_still {adapter : LinuxAdapter} {fs : FileSystem} {t : Interaction.Transcript Access Access.Answer}
    (ht : ∀ answer, ⟨.readDir adapter.root, answer⟩ ∈ t → answer = fs (.readDir adapter.root))
    (hd : ∀ pids, adapter.listPids.resultOn fs = .ok pids → pids.Nodup) : ListsOnce adapter t := by
  intro part pids hpart hlist
  obtain ⟨answer, rfl⟩ := reaches_listNumericEntries hlist
  have hanswer := ht answer (hpart.subset List.mem_cons_self)
  apply hd pids
  exact (Interaction.result_of_reaches fs hlist fun x hx => by rw [List.mem_singleton.mp hx]; exact hanswer).symm

/-- A call over files that stand still, and later ones over files that may have moved. -/
theorem reaches_refreshing_cons {adapter : LinuxAdapter} {call : Call} {calls : List Call} {fs : FileSystem}
    {s s' : ProcessIntelligence} {result : Result Unit} {t : Interaction.Transcript Access Access.Answer}
    {last : Interaction Access Access.Answer (Option ProcessIntelligence)}
    (h : (refreshOver adapter s call).run fs = some (s', result))
    (hlater : (refreshing adapter calls s').Reaches t last) :
    (refreshing adapter (call :: calls) s).Reaches ((refreshOver adapter s call).transcript fs ++ t) last := by
  have hcall := Interaction.reaches_run fs (refreshOver adapter s call)
  rw [h] at hcall
  exact hcall.bind hlater

def daemonRefresh : Call := ⟨1000, fun _ => .stored, .stored, .stored⟩

def laterRefresh : Call := ⟨1005, fun _ => .stored, .stored, .stored⟩

/-- A daemon without a socket is all there is. -/
def loneDaemon : FileSystem
  | .readFile path => match path with
    | "/proc/42/stat" => .ok "42 (sshd) S 1 42 42 0 -1 0 0 0 0 0 7 3 0 0 20 0 1 0 98765 0 0\n".toUTF8
    | "/proc/42/status" => .ok "Uid:\t0\t0\t0\t0\nGid:\t0\t0\t0\t0\nVmSwap:\t0 kB\n".toUTF8
    | "/proc/42/statm" => .ok "3000 1200 800 100 0 300 0\n".toUTF8
    | _ => .error .notFound
  | .readDir path => match path with
    | "/proc" => .ok [.ok (some "42".toList)]
    | _ => .error .notFound
  | .readLink _ | .metadata _ => .error .notFound

/-- The daemon's pid now belongs to another process. -/
def restartedDaemon : FileSystem := loneDaemon.withFile "/proc/42/stat"
  (.ok "42 (sshd) S 1 42 42 0 -1 0 0 0 0 0 9 1 0 0 20 0 1 0 99000 0 0\n".toUTF8)

/-- The accesses of a refresh that finds the daemon. -/
def daemonAccesses : Interaction.Transcript Access Access.Answer :=
  (refreshOver hostAdapter .new daemonRefresh).transcript loneDaemon

def afterDaemon : ProcessIntelligence :=
  ((refreshOver hostAdapter .new daemonRefresh).run loneDaemon).elim .new (·.1)

/-- The accesses of the refresh that finds the other process. -/
def restartAccesses : Interaction.Transcript Access Access.Answer :=
  (refreshOver hostAdapter afterDaemon laterRefresh).transcript restartedDaemon

def afterRestart : ProcessIntelligence :=
  ((refreshOver hostAdapter afterDaemon laterRefresh).run restartedDaemon).elim .new (·.1)

theorem listsOnce_restart : ListsOnce hostAdapter (daemonAccesses ++ restartAccesses) := by
  have hroot : restartedDaemon (.readDir "/proc") = loneDaemon (.readDir "/proc") := rfl
  have hsame (answer : Except ErrorKind (List (Except ErrorKind (Option Text))))
      (hm : ⟨.readDir "/proc", answer⟩ ∈ daemonAccesses ++ restartAccesses) :
      answer = loneDaemon (.readDir "/proc") := by
    rcases List.mem_append.mp hm with hm | hm
    · exact Interaction.answer_of_mem_transcript loneDaemon _ hm
    · exact (Interaction.answer_of_mem_transcript restartedDaemon _ hm).trans hroot
  apply listsOnce_of_still hsame
  intro pids h
  have hlisted : hostAdapter.listPids.resultOn loneDaemon = .ok [42] := by decide +kernel
  obtain rfl := Except.ok.inj (hlisted.symm.trans h)
  exact List.nodup_singleton 42

theorem afterDaemon_process : (afterDaemon.process 42).map (·.startTime) = some 98765 := by decide +kernel

theorem afterRestart_process : (afterRestart.process 42).map (·.startTime) = some 99000 := by decide +kernel

theorem run_eq_of_process {run : Option (ProcessIntelligence × Result Unit)} {startTime : UInt64}
    (h : ((run.elim .new (·.1)).process 42).map (·.startTime) = some startTime) :
    ∃ result, run = some (run.elim .new (·.1), result) := by
  cases run with
  | none => cases h
  | some run => exact ⟨run.2, rfl⟩

theorem reaches_restart : (refreshing hostAdapter [daemonRefresh, laterRefresh] .new).Reaches
    (daemonAccesses ++ restartAccesses) (.pure (some afterRestart)) := by
  obtain ⟨_, hfirst⟩ := run_eq_of_process afterDaemon_process
  obtain ⟨_, hsecond⟩ := run_eq_of_process afterRestart_process
  have hlater := reaches_refreshing_cons hsecond (.refl (refreshing hostAdapter [] afterRestart))
  rw [List.append_nil] at hlater
  exact reaches_refreshing_cons hfirst hlater

theorem refreshing_eq_run_of_daemon : ∃ parts ticks, daemonAccesses ++ restartAccesses = parts.flatten ∧
    List.Forall₂ (Backed hostAdapter) parts ticks ∧ ticks.map Tick.call = [daemonRefresh, laterRefresh] ∧
    ((afterRun ticks).process 42).map (·.startTime) = some 99000 := by
  obtain ⟨parts, ticks, hparts, hbacked, hcalls, hs⟩ := refreshing_eq_run listsOnce_restart reaches_restart
  change afterRestart = afterRun ticks at hs
  exact ⟨parts, ticks, hparts, hbacked, hcalls, hs ▸ afterRestart_process⟩

end ProcessExplorer.Intelligence
