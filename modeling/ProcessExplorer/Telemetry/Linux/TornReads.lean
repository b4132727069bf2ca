import Mathlib.Logic.Relation
import ProcessExplorer.Library.SlotLog
import ProcessExplorer.Telemetry.Linux.Adapter

/-! The reads of one snapshot, interleaved with a kernel that ends processes and
gives their pids away again. -/
namespace ProcessExplorer.Telemetry.Linux
open Library Model

inductive KernelEvent where
  | started (pid : Pid) (startTime : UInt64)
  | ended (pid : Pid) (startTime : UInt64)
  | answered (a : Access) (answer : a.Answer)

def tableChange : KernelEvent → Option (SlotChange Pid UInt64)
  | .started pid startTime => some (.taken pid startTime)
  | .ended pid startTime => some (.left pid startTime)
  | .answered _ _ => none

/-- The start time of the generation that holds a pid. -/
abbrev tenant (log : List KernelEvent) (pid : Pid) : Option UInt64 := SlotLog.holder tableChange log pid

theorem tenant_started (log : List KernelEvent) (pid : Pid) (startTime : UInt64) :
    tenant (log ++ [.started pid startTime]) pid = some startTime := by
  rw [tenant, SlotLog.holder_concat]
  simp [SlotLog.update, tableChange]

def Access.path : Access → String
  | .readFile path | .readLink path | .readDir path | .metadata path => path

/-- The access names something in the directory of the process. -/
def InDirectory (root : String) (pid : Pid) (a : Access) : Prop :=
  (procPath root pid "").toList <+: a.path.toList

/-- The access succeeds with something that goes into a snapshot; what kind of
file a descriptor is does not. -/
def Yields : (a : Access) → a.Answer → Prop
  | .readFile _, answer => ∃ content, decoded answer = .ok content
  | .readLink _, answer => answer.isOk
  | .readDir _, answer => ∃ entries, answer = .ok entries ∧ ∀ entry ∈ entries, entry.isOk
  | .metadata _, _ => False

/-- A stat line that can be read and parsed is that of the pid's holder. -/
def StatTrue (root : String) (pid : Pid) (log : List KernelEvent) : (a : Access) → a.Answer → Prop
  | .readFile path, answer => ∀ content stat, path = procPath root pid "stat" →
      decoded answer = .ok content → parseStatLine content path = .ok stat →
      tenant log pid = some stat.starttime
  | _, _ => True

/-- What may happen next. No generation of a pid comes back, and the directory of
a pid is that of its holder; what stands in the files is left open. -/
def Occurs (root : String) (pid : Pid) (log : List KernelEvent) (e : KernelEvent) : Prop :=
  SlotLog.Allows tableChange log e ∧ match e with
    | .answered a answer =>
      (InDirectory root pid a → Yields a answer → (tenant log pid).isSome) ∧ StatTrue root pid log a answer
    | _ => True

structure ReadState where
  log : List KernelEvent
  call : Interaction Access Access.Answer (Result ProcessSnapshot)

inductive ReadStep (root : String) (pid : Pid) (s : ReadState) : ReadState → Prop
  | start (p : Pid) (startTime : UInt64) (h : Occurs root pid s.log (.started p startTime)) :
      ReadStep root pid s { s with log := s.log ++ [.started p startTime] }
  | stop (p : Pid) (startTime : UInt64) (h : Occurs root pid s.log (.ended p startTime)) :
      ReadStep root pid s { s with log := s.log ++ [.ended p startTime] }
  | answer (a : Access) (next : a.Answer → Interaction Access Access.Answer (Result ProcessSnapshot))
      (answer : a.Answer) (running : s.call = .ask a next) (h : Occurs root pid s.log (.answered a answer)) :
      ReadStep root pid s ⟨s.log ++ [.answered a answer], next answer⟩

/-- The states of one call for the snapshot of a pid. -/
abbrev Reads (adapter : LinuxAdapter) (pid : Pid) (s : ReadState) : Prop :=
  Relation.ReflTransGen (ReadStep adapter.root pid) ⟨[], (adapter.process pid).run⟩ s

def answersIn (log : List KernelEvent) : Interaction.Transcript Access Access.Answer :=
  log.filterMap fun
    | .answered a answer => some ⟨a, answer⟩
    | _ => none

/-- Whatever the reads yielded came from this generation. -/
def ReadFrom (root : String) (pid : Pid) (log : List KernelEvent) (startTime : UInt64) : Prop :=
  ∀ past a answer rest, log = past ++ .answered a answer :: rest → InDirectory root pid a →
    Yields a answer → tenant past pid = some startTime

/-- The pid was given away after the read of stat, the first, and before a later read that succeeded. -/
def RecycledWhileRead (root : String) (pid : Pid) (log : List KernelEvent) : Prop :=
  ∃ before stat between a answer after startTime,
    log = before ++ .answered (.readFile (procPath root pid "stat")) stat ::
      (between ++ .answered a answer :: after) ∧
    answersIn before = [] ∧ .started pid startTime ∈ between ∧ InDirectory root pid a ∧ Yields a answer

/-- The log is a possible one, and the call has followed its program so far. -/
structure ReadInv (adapter : LinuxAdapter) (pid : Pid) (s : ReadState) : Prop where
  possible : Justified (Occurs adapter.root pid) s.log
  followed : (adapter.process pid).run.Reaches (answersIn s.log) s.call

section Invariant
variable {adapter : LinuxAdapter} {pid : Pid} {s s' : ReadState}

@[simp] theorem answersIn_append (l r : List KernelEvent) : answersIn (l ++ r) = answersIn l ++ answersIn r :=
  List.filterMap_append

@[simp] theorem answersIn_answered (a : Access) (answer : a.Answer) (rest : List KernelEvent) :
    answersIn (.answered a answer :: rest) = ⟨a, answer⟩ :: answersIn rest := rfl

theorem ReadInv.step (h : ReadInv adapter pid s) (hs : ReadStep adapter.root pid s s') :
    ReadInv adapter pid s' := by
  cases hs with
  | start p startTime hp => exact ⟨h.possible.concat hp, by simpa [answersIn] using h.followed⟩
  | stop p startTime hp => exact ⟨h.possible.concat hp, by simpa [answersIn] using h.followed⟩
  | answer a next answer running hp =>
    refine ⟨h.possible.concat hp, ?_⟩
    have hf := h.followed
    rw [running] at hf
    simpa [answersIn] using hf.snoc answer

theorem readInv_of_reads (h : Reads adapter pid s) : ReadInv adapter pid s := by
  induction h with
  | refl => exact ⟨.nil, .refl _⟩
  | tail _ hs ih => exact ih.step hs

end Invariant

section Torn
variable {adapter : LinuxAdapter} {pid : Pid} {s : ReadState} {snapshot : ProcessSnapshot}

theorem ReadInv.lawful (h : ReadInv adapter pid s) : SlotLog.Lawful tableChange s.log :=
  h.possible.mono fun _ _ hp => hp.1

/-- A finished call has read stat first, and the snapshot names whoever held the pid then. -/
theorem tenant_at_stat_read (h : ReadInv adapter pid s) (finished : s.call = .pure (.ok snapshot))
    {before rest : List KernelEvent} {a : (Access.readFile (procPath adapter.root pid "stat")).Answer}
    (hlog : s.log = before ++ .answered (.readFile (procPath adapter.root pid "stat")) a :: rest)
    (hbefore : answersIn before = []) : tenant before pid = some snapshot.startTime := by
  have hf := h.followed
  rw [finished] at hf
  obtain ⟨a', content, stat, t, ht, hdecoded, hparse, hstart⟩ := adapter.process_startTime pid hf
  have ha : a = a' := by
    rw [hlog, answersIn_append, hbefore, answersIn_answered] at ht
    simpa using (List.cons.inj ht).1
  subst ha
  rw [hstart]
  exact (h.possible before _ rest hlog).2.2 content stat rfl hdecoded hparse

theorem exists_stat_read (h : ReadInv adapter pid s) (finished : s.call = .pure (.ok snapshot)) :
    ∃ before a rest, s.log = before ++ .answered (.readFile (procPath adapter.root pid "stat")) a :: rest ∧
      answersIn before = [] := by
  have hf := h.followed
  rw [finished] at hf
  obtain ⟨a, _, _, t, ht, -⟩ := adapter.process_startTime pid hf
  obtain ⟨before, e, rest, hlog, hbefore, he, -⟩ := List.filterMap_eq_cons_iff.mp ht
  cases e with
  | answered a' answer =>
    cases he
    exact ⟨before, a, rest, hlog, List.filterMap_eq_nil_iff.mpr hbefore⟩
  | _ => cases he

/-- A generation that held the pid before and after has not let anyone else have it in between. -/
theorem not_started_between {before between : List KernelEvent} {startTime other : UInt64}
    (hl : SlotLog.Lawful tableChange (before ++ between)) (hthen : tenant before pid = some startTime)
    (hnow : tenant (before ++ between) pid = some startTime) : .started pid other ∉ between := by
  intro hm
  obtain ⟨l, r, rfl⟩ := List.append_of_mem hm
  rw [← List.append_assoc] at hl hnow
  have hfree : tenant (before ++ l) pid = none :=
    (hl (before ++ l) (.started pid other) r (by simp)).1
  obtain ⟨e, he, hleft⟩ := SlotLog.left_between hl.of_append hthen (by simp [hfree])
  exact SlotLog.holder_ne_of_left hl ⟨e, by simp [he], hleft⟩ hnow

/-- Where a read of a finished call stands relative to the read of stat. -/
theorem at_or_after_stat {before past rest rest' : List KernelEvent} {e : KernelEvent} {a : Access}
    {answer : a.Answer} (hsplit : past ++ .answered a answer :: rest = before ++ e :: rest')
    (hbefore : answersIn before = []) :
    past = before ∨ ∃ between, past = before ++ e :: between ∧ rest' = between ++ .answered a answer :: rest := by
  rcases List.append_eq_append_iff.mp hsplit with ⟨as, rfl, has⟩ | ⟨bs, rfl, hbs⟩
  · cases as with
    | nil => exact .inl (List.append_nil past).symm
    | cons x as =>
      obtain ⟨rfl, -⟩ := List.cons.inj has
      simp at hbefore
  · cases bs with
    | nil => exact .inl (List.append_nil before)
    | cons x bs =>
      obtain ⟨rfl, hrest⟩ := List.cons.inj hbs
      exact .inr ⟨bs, rfl, hrest⟩

/-- All that went into a snapshot is of the generation it names exactly when the pid
was not given away while it was read. -/
theorem snapshot_of_one_generation_iff (adapter : LinuxAdapter) (pid : Pid) (s : ReadState)
    (reads : Reads adapter pid s) (snapshot : ProcessSnapshot) (finished : s.call = .pure (.ok snapshot)) :
    ReadFrom adapter.root pid s.log snapshot.startTime ↔ ¬ RecycledWhileRead adapter.root pid s.log := by
  have h := readInv_of_reads reads
  -- the read of stat itself leaves the process table as it is
  have hread {before rest : List KernelEvent} {stat : (Access.readFile (procPath adapter.root pid "stat")).Answer}
      (hlog : s.log = before ++ .answered (.readFile (procPath adapter.root pid "stat")) stat :: rest)
      (hbefore : answersIn before = []) :
      tenant (before ++ [.answered (.readFile (procPath adapter.root pid "stat")) stat]) pid =
        some snapshot.startTime :=
    (SlotLog.holder_concat_of_none tableChange rfl before pid).trans
      (tenant_at_stat_read h finished hlog hbefore)
  constructor
  · rintro hfrom ⟨before, stat, between, a, answer, after, other, hlog, hbefore, hstarted, hin, hy⟩
    have hthen := hread hlog hbefore
    rw [← List.singleton_append, ← List.append_assoc, ← List.append_assoc] at hlog
    have hnow := hfrom _ a answer after hlog hin hy
    exact not_started_between (hlog ▸ h.lawful).of_append hthen hnow hstarted
  · intro hnot past a answer rest hlog hin hy
    obtain ⟨before, stat, rest', hstat, hbefore⟩ := exists_stat_read h finished
    obtain ⟨now, hnow⟩ := Option.isSome_iff_exists.mp ((h.possible past _ rest hlog).2.1 hin hy)
    rcases at_or_after_stat (hlog.symm.trans hstat) hbefore with rfl | ⟨between, rfl, rfl⟩
    · exact tenant_at_stat_read h finished hstat hbefore
    · by_contra hne
      have hother : now ≠ snapshot.startTime := fun heq => hne (heq ▸ hnow)
      rw [← List.singleton_append, ← List.append_assoc] at hnow hlog
      obtain ⟨e₁, e₂, -, h₂, hsub⟩ := SlotLog.exchanged_between (hlog ▸ h.lawful).of_append
        (hread hstat hbefore) hnow hother
      obtain rfl : e₂ = .started pid now := by
        cases e₂ <;> simp_all [tableChange]
      exact hnot ⟨before, stat, between, a, answer, rest, now, hstat, hbefore,
        hsub.subset (by simp), hin, hy⟩

end Torn

/-- The log entries of some reads. -/
def answeredAs (t : Interaction.Transcript Access Access.Answer) : List KernelEvent :=
  t.map fun x => .answered x.1 x.2

/-- Once stat has been read, a call can run to its end under whoever holds the pid. -/
theorem exists_run_on {root : String} {pid : Pid} (fs : FileSystem) (s : ReadState)
    (held : (tenant s.log pid).isSome)
    (hstat : .readFile (procPath root pid "stat") ∉ (s.call.transcript fs).map (·.1)) :
    Relation.ReflTransGen (ReadStep root pid) s
      ⟨s.log ++ answeredAs (s.call.transcript fs), .pure (s.call.run fs)⟩ := by
  obtain ⟨log, call⟩ := s
  induction call generalizing log with
  | pure result => simpa [Interaction.transcript, answeredAs] using .refl
  | ask a next ih =>
    have htrue : StatTrue root pid log a (fs a) := by
      cases a with
      | readFile path =>
        intro _ _ hpath
        exact absurd (congrArg Access.readFile hpath) (List.ne_of_not_mem_cons hstat).symm
      | _ => trivial
    have hstep : ReadStep root pid ⟨log, .ask a next⟩ ⟨log ++ [.answered a (fs a)], next (fs a)⟩ :=
      .answer a next (fs a) rfl ⟨trivial, fun _ _ => held, htrue⟩
    have hrest := ih (fs a) (log ++ [.answered a (fs a)])
      (by rw [tenant, SlotLog.holder_concat_of_none tableChange rfl]; exact held)
      (List.not_mem_of_not_mem_cons hstat)
    rw [List.append_assoc] at hrest
    exact .head hstep hrest

/-- The start time that the stat file of a pid shows. -/
def shownStart (fs : FileSystem) (root : String) (pid : Pid) : Option UInt64 := do
  let content ← (fs.text (procPath root pid "stat")).toOption
  let stat ← (parseStatLine content (procPath root pid "stat")).toOption
  some stat.starttime

theorem startTime_of_shown {fs : FileSystem} {root : String} {pid : Pid} {startTime : UInt64} {content : Text}
    {stat : StatFields} (h : shownStart fs root pid = some startTime)
    (hdecoded : decoded (fs (.readFile (procPath root pid "stat"))) = .ok content)
    (hparse : parseStatLine content (procPath root pid "stat") = .ok stat) : stat.starttime = startTime := by
  have htext : fs.text (procPath root pid "stat") = .ok content := hdecoded
  rw [shownStart, htext] at h
  simpa [Except.toOption, hparse] using h

/-- A read leaves the pid with the process that has just started. -/
theorem tenant_after_read (pid : Pid) (startTime : UInt64) (a : Access) (answer : a.Answer) :
    tenant [.started pid startTime, .answered a answer] pid = some startTime :=
  (SlotLog.holder_concat_of_none tableChange rfl [.started pid startTime] pid).trans
    (tenant_started [] pid startTime)

/-- The first read of a call, made while a process that has just started holds the pid. -/
theorem exists_after_stat (adapter : LinuxAdapter) (pid : Pid) (fs : FileSystem) (startTime : UInt64)
    (hshows : shownStart fs adapter.root pid = some startTime) : ∃ call,
      Reads adapter pid ⟨[.started pid startTime, .answered (.readFile (procPath adapter.root pid "stat")) (fs _)],
        call⟩ ∧
      (adapter.process pid).run.transcript fs =
        ⟨.readFile (procPath adapter.root pid "stat"), fs _⟩ :: call.transcript fs ∧
      call.run fs = (adapter.process pid).resultOn fs := by
  obtain ⟨next, hnext⟩ : ∃ next, (adapter.process pid).run =
    .ask (.readFile (procPath adapter.root pid "stat")) next := ⟨_, rfl⟩
  have htrue : StatTrue adapter.root pid [.started pid startTime]
      (.readFile (procPath adapter.root pid "stat")) (fs _) := by
    intro content stat _ hdecoded hparse
    have htext : fs.text (procPath adapter.root pid "stat") = .ok content := hdecoded
    rw [shownStart, htext] at hshows
    simp only [Except.toOption, Option.bind_eq_bind, Option.bind_some, hparse, Option.some.injEq] at hshows
    rw [hshows]
    exact tenant_started [] pid startTime
  have held : (tenant [.started pid startTime] pid).isSome :=
    Option.isSome_iff_exists.mpr ⟨startTime, tenant_started [] pid startTime⟩
  refine ⟨next (fs _), ?_, ?_, ?_⟩
  · have h₀ : Reads adapter pid ⟨[], (adapter.process pid).run⟩ := .refl
    have h₁ := h₀.tail (.start pid startTime
      ⟨by simp [SlotLog.Allows, tableChange, SlotLog.holder], trivial⟩)
    exact h₁.tail (.answer _ next (fs _) hnext ⟨trivial, fun _ _ => held, htrue⟩)
  · rw [hnext]
    rfl
  · rw [Procfs.resultOn, hnext]
    rfl

/-- A shell's stat line; the other files are those of the daemon that gets the shell's pid. -/
def recycledDaemon : FileSystem := oldKernelDaemon.withFile "/proc/4242/stat"
  (.ok "4242 (bash) S 1 4242 4242 0 -1 0 0 0 0 0 7 3 0 0 20 0 1 0 500 0 0\n".toUTF8)

/-- What a call that meets these files yields. -/
theorem recycledDaemon_snapshot : ∃ snapshot, (hostAdapter.process 4242).resultOn recycledDaemon = .ok snapshot ∧
    snapshot.name = "bash" ∧ snapshot.cmdline = ["sshd", "-D"] ∧ snapshot.startTime = 500 := by
  have hread : ((hostAdapter.process 4242).resultOn recycledDaemon).toOption.map
      (fun snapshot => (snapshot.name, snapshot.cmdline, snapshot.startTime)) =
      some ("bash", ["sshd", "-D"], 500) := by decide +kernel
  obtain ⟨snapshot, hsnapshot, hfields⟩ := Option.map_eq_some_iff.mp hread
  obtain ⟨hname, hrest⟩ := Prod.mk.inj hfields
  obtain ⟨hcmdline, hstart⟩ := Prod.mk.inj hrest
  refine ⟨snapshot, ?_, hname, hcmdline, hstart⟩
  cases hresult : (hostAdapter.process 4242).resultOn recycledDaemon with
  | error e =>
    rw [hresult] at hsnapshot
    cases hsnapshot
  | ok snapshot' =>
    rw [hresult] at hsnapshot
    exact congrArg Except.ok (Option.some.inj hsnapshot)

/-- The shell ends and the daemon starts right after stat has been read: the
snapshot names the shell and has the daemon's user and command line. -/
theorem snapshot_of_two_generations : ∃ s snapshot, Reads hostAdapter 4242 s ∧
    s.call = .pure (.ok snapshot) ∧ snapshot.name = "bash" ∧ snapshot.cmdline = ["sshd", "-D"] ∧
    ¬ ReadFrom hostAdapter.root 4242 s.log snapshot.startTime := by
  obtain ⟨call, h₁, htranscript, hrun⟩ := exists_after_stat hostAdapter 4242 recycledDaemon
    500 (by decide +kernel)
  have h₂ := h₁.tail (.stop 4242 500 ⟨tenant_after_read 4242 500 _ _, trivial⟩)
  have h₃ := h₂.tail (.start 4242 900 ⟨⟨by simp [SlotLog.holder, SlotLog.update, tableChange],
    by simp [tableChange]⟩, trivial⟩)
  have hdaemon := tenant_started ([.started 4242 500, .answered (.readFile (procPath hostAdapter.root 4242 "stat"))
    (recycledDaemon _)] ++ [.ended 4242 500]) 4242 900
  have hlater : .readFile (procPath hostAdapter.root 4242 "stat") ∉
      ((hostAdapter.process 4242).run.transcript recycledDaemon).tail.map (·.1) := by decide +kernel
  have hnext : ((hostAdapter.process 4242).run.transcript recycledDaemon).tail.head?.map (·.1) =
      some (.readFile "/proc/4242/status") := by decide +kernel
  rw [htranscript, List.tail_cons] at hlater hnext
  have h₄ := h₃.trans (exists_run_on recycledDaemon _ (Option.isSome_iff_exists.mpr ⟨900, hdaemon⟩) hlater)
  obtain ⟨snapshot, hsnapshot, hname, hcmdline, hstart⟩ := recycledDaemon_snapshot
  refine ⟨_, snapshot, h₄, by rw [hrun, hsnapshot], hname, hcmdline, fun hfrom => ?_⟩
  -- the next read, that of status, was made while the daemon held the pid
  obtain ⟨x, hhead, hx⟩ := Option.map_eq_some_iff.mp hnext
  obtain ⟨rest, hrest⟩ := List.head?_eq_some_iff.mp hhead
  obtain ⟨a, answer⟩ := x
  obtain rfl : a = .readFile "/proc/4242/status" := hx
  have hanswer : answer = recycledDaemon (.readFile "/proc/4242/status") :=
    Interaction.answer_of_mem_transcript recycledDaemon call (hrest ▸ List.mem_cons_self)
  have hyields : Yields (.readFile "/proc/4242/status") answer :=
    exists_eq_ok (by rw [hanswer]; decide +kernel)
  have hin : InDirectory hostAdapter.root 4242 (.readFile "/proc/4242/status") := by
    rw [InDirectory]
    decide +kernel
  have hthen := hfrom _ (.readFile "/proc/4242/status") answer (answeredAs rest)
    (congrArg (fun t => _ ++ answeredAs t) hrest) hin hyields
  rw [hstart] at hthen
  exact absurd (hdaemon.symm.trans hthen) (by decide)

/-- Nothing is given away in a log that a process opens and reads continue. -/
theorem not_recycled_of_still {root : String} {pid : Pid} {startTime : UInt64}
    (t : Interaction.Transcript Access Access.Answer) :
    ¬ RecycledWhileRead root pid (.started pid startTime :: answeredAs t) := by
  rintro ⟨before, stat, between, a, answer, after, other, hlog, -, hstarted, -, -⟩
  cases before with
  | nil => cases hlog
  | cons e before =>
    have hmem : KernelEvent.started pid other ∈ answeredAs t := by
      rw [(List.cons.inj hlog).2]
      simp [hstarted]
    obtain ⟨x, _, hx⟩ := List.mem_map.mp hmem
    cases hx

/-- A daemon that lives on while it is read. -/
theorem snapshot_of_one_generation_still : ∃ s snapshot, Reads hostAdapter 4242 s ∧
    s.call = .pure (.ok snapshot) ∧ ReadFrom hostAdapter.root 4242 s.log snapshot.startTime := by
  obtain ⟨call, h₁, htranscript, hrun⟩ := exists_after_stat hostAdapter 4242 oldKernelDaemon
    98765 (by decide +kernel)
  have hlater : .readFile (procPath hostAdapter.root 4242 "stat") ∉
      ((hostAdapter.process 4242).run.transcript oldKernelDaemon).tail.map (·.1) := by decide +kernel
  rw [htranscript, List.tail_cons] at hlater
  have hheld := Option.isSome_iff_exists.mpr ⟨98765, tenant_after_read 4242 98765
    (.readFile (procPath hostAdapter.root 4242 "stat")) (oldKernelDaemon _)⟩
  have h₂ := h₁.trans (exists_run_on oldKernelDaemon _ hheld hlater)
  obtain ⟨snapshot, hsnapshot⟩ := exists_eq_ok
    (x := (hostAdapter.process 4242).resultOn oldKernelDaemon) (by decide +kernel)
  have hfinished : Interaction.pure (call.run oldKernelDaemon) =
      Interaction.pure (Q := Access) (A := Access.Answer) (.ok snapshot) := by rw [hrun, hsnapshot]
  refine ⟨_, snapshot, h₂, hfinished, ?_⟩
  exact (snapshot_of_one_generation_iff hostAdapter 4242 _ h₂ snapshot hfinished).mpr
    (not_recycled_of_still (⟨_, _⟩ :: call.transcript oldKernelDaemon))

end ProcessExplorer.Telemetry.Linux
