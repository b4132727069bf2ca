import ProcessExplorer.Intelligence.Exits
import ProcessExplorer.Intelligence.MovingFiles
import ProcessExplorer.Intelligence.NewChildren
import ProcessExplorer.Intelligence.TimelineLog

/-! What a run of refresh_at says about processes, against the kernel's own log of them. -/
namespace ProcessExplorer.Intelligence
open Library Model Telemetry Telemetry.Linux

/-- The log is a possible one, whatever directory is looked at. -/
def Possible (root : String) (log : List KernelEvent) : Prop := ∀ pid, Justified (Occurs root pid) log

/-- The generation had its pid at some moment. -/
def Held (log : List KernelEvent) (key : HistoryKey) : Prop :=
  ∃ past rest, log = past ++ rest ∧ tenant past key.1 = some key.2

section Observed
variable {ticks : List Tick}

/-- A live generation was observed by an earlier call. -/
theorem observed_of_tracker (hd : ∀ t ∈ ticks, t.Distinct) {pid : Pid} {g : Generation}
    (h : (trackerOf ticks pid).live = some g) : ∃ t ∈ ticks, t.observes (pid, g.startTime) := by
  induction ticks using List.reverseRecOn with
  | nil => cases h
  | append_singleton past t ih =>
    have hpast (hlive : (trackerOf past pid).live = some g) : ∃ u ∈ past ++ [t], u.observes (pid, g.startTime) := by
      obtain ⟨u, hu, hobs⟩ := ih (fun u hu => hd u (List.mem_append_left _ hu)) hlive
      exact ⟨u, List.mem_append_left _ hu, hobs⟩
    rw [trackerOf_concat] at h
    by_cases hs : t.Succeeds
    · cases hr : t.reading pid with
      | none =>
        rw [experience_of_no_reading hs hr] at h
        cases h
      | some read =>
        rw [experience_of_reading (hd t (by simp)) hr] at h
        obtain rfl := Option.some.inj h
        obtain ⟨pids, hl, hm, hprocess⟩ := reading_eq_some_iff.mp hr
        exact ⟨t, by simp, observes_iff.mpr ⟨pids, read, hl, hm, hprocess, by simp⟩⟩
    · rw [experience_of_failure hs] at h
      exact hpast h

theorem observed_of_live (hd : ∀ t ∈ ticks, t.Distinct) {key : HistoryKey} (h : (afterRun ticks).Live key) :
    ∃ t ∈ ticks, t.observes key := by
  have hlive := ((tracks_run ticks key.1).live_iff key.2).mp h
  obtain ⟨g, hg, hst⟩ := Option.map_eq_some_iff.mp hlive
  obtain ⟨t, ht, hobs⟩ := observed_of_tracker hd hg
  rw [hst] at hobs
  exact ⟨t, ht, hobs⟩

theorem succeeds_of_appended {s : ProcessIntelligence} {t : Tick} {e : TimelineEvent} (he : e ∈ s.appended t) :
    t.Succeeds := by
  cases hl : t.adapter.listPids with
  | ok pids => exact ⟨pids, hl⟩
  | error source =>
    rw [ProcessIntelligence.appended] at he
    rw [hl] at he
    cases he

/-- Every event is about a generation that its call observes or finds in the table. -/
theorem observed_of_appended {s : ProcessIntelligence} {t : Tick} (hd : t.Distinct) {e : TimelineEvent}
    (he : e ∈ s.appended t) : t.observes e.key ∨ s.Live e.key := by
  obtain ⟨pids, hl⟩ := succeeds_of_appended he
  by_cases hexit : isExited e.kind
  · obtain ⟨key, hlive, -, rfl⟩ := (exited_mem_appended_iff ⟨pids, hl⟩).mp ⟨he, hexit⟩
    exact .inr hlive
  · by_cases hchild : isNewChild e.kind
    · obtain ⟨child, -, he⟩ := (newChild_mem_appended_iff hl (hd pids hl)).mp ⟨he, hchild⟩
      obtain ⟨read, -, start, hstart, rfl⟩ := mem_childEventsOf.mp he
      rw [parentStartTime_scan _ _ (hd pids hl)] at hstart
      rcases Option.or_eq_some_iff.mp hstart with hread | ⟨-, hold⟩
      · obtain ⟨hm, hparent⟩ := (Option.ite_none_right_eq_some ..).mp hread
        obtain ⟨parent, hprocess, hst⟩ := Option.map_eq_some_iff.mp hparent
        have hok : t.adapter.process read.ppid = .ok parent := by
          cases hp : t.adapter.process read.ppid <;> simp_all [Except.toOption]
        exact .inl (observes_iff.mpr ⟨pids, parent, hl, (List.takeWhile_sublist _).subset hm, hok, hst⟩)
      · obtain ⟨snap, hsnap, hst⟩ := Option.map_eq_some_iff.mp hold
        exact .inr ⟨snap, hsnap, hst⟩
    · have hpending : ∀ e ∈ (s.drainStale.scan t pids).pendingEvents, isNewChild e.kind = true ∨ t.observes e.key := by
        apply forall_pendingEvents
        intro p pid hm e he
        obtain ⟨read, hread, rfl | ⟨_, rfl⟩ | ⟨snap, hst, ⟨_, rfl⟩ | ⟨_, rfl⟩⟩⟩ := mem_iterationEvents he
        · exact .inr (observes_iff.mpr ⟨pids, read, hl, hm, hread, rfl⟩)
        · exact .inl rfl
        · exact .inr (observes_iff.mpr ⟨pids, read, hl, hm, hread, hst.symm⟩)
        · exact .inr (observes_iff.mpr ⟨pids, read, hl, hm, hread, hst.symm⟩)
      simp only [ProcessIntelligence.appended, hl, ProcessIntelligence.passEvents] at he
      rcases List.mem_append.mp he with he | he
      · exact .inl ((hpending e he).resolve_left hchild)
      · obtain ⟨key, -, rfl⟩ := List.mem_map.mp he
        exact absurd rfl hexit

/-- Every event of a run is about a generation that some call of it observes. -/
theorem observed_of_event (hd : ∀ t ∈ ticks, t.Distinct) {e : TimelineEvent} (he : e ∈ runEvents ticks) :
    ∃ t ∈ ticks, t.observes e.key := by
  induction ticks using List.reverseRecOn with
  | nil => cases he
  | append_singleton past t ih =>
    have hpast : ∀ u ∈ past, u.Distinct := fun u hu => hd u (List.mem_append_left _ hu)
    have hmono : (∃ u ∈ past, u.observes e.key) → ∃ u ∈ past ++ [t], u.observes e.key := fun ⟨u, hu, hobs⟩ =>
      ⟨u, List.mem_append_left _ hu, hobs⟩
    rw [runEvents_concat] at he
    rcases List.mem_append.mp he with he | he
    · exact hmono (ih hpast he)
    · rcases observed_of_appended (hd t (by simp)) he with hobs | hlive
      · exact ⟨t, by simp, hobs⟩
      · exact hmono (observed_of_live hpast hlive)

end Observed

section Log
variable {adapter : LinuxAdapter} {log before during after : List KernelEvent} {key : HistoryKey}

/-- The log has an entry for every access of a transcript. -/
theorem split_answersIn {t₁ t₂ : Interaction.Transcript Access Access.Answer} (h : answersIn log = t₁ ++ t₂) :
    ∃ l₁ l₂, log = l₁ ++ l₂ ∧ answersIn l₁ = t₁ ∧ answersIn l₂ = t₂ := by
  obtain ⟨l₁, l₂, rfl, h₁, h₂⟩ := List.filterMap_eq_append_iff.mp h
  exact ⟨l₁, l₂, rfl, h₁, h₂⟩

/-- A call that reads the stat line of a process finds out who had the pid at that moment. -/
theorem held_of_process (hpossible : Possible adapter.root (before ++ during)) {pid : Pid} {read : ProcessSnapshot}
    {part : Interaction.Transcript Access Access.Answer} (hpart : part <:+: answersIn during)
    (hread : (adapter.process pid).run.Reaches part (.pure (.ok read))) :
    ∃ past stat rest, during = past ++ .answered (.readFile (procPath adapter.root pid "stat")) stat :: rest ∧
      tenant (before ++ past) pid = some read.startTime := by
  obtain ⟨a, content, stat, later, rfl, hdecoded, hparse, hst⟩ := adapter.process_startTime pid hread
  obtain ⟨x, y, hxy⟩ := hpart
  rw [List.append_assoc] at hxy
  obtain ⟨l₁, l₂, rfl, -, h₂⟩ := split_answersIn hxy.symm
  obtain ⟨skipped, e, rest, rfl, -, he, -⟩ := List.filterMap_eq_cons_iff.mp h₂
  cases e with
  | answered a' answer =>
    cases he
    refine ⟨l₁ ++ skipped, a, rest, (List.append_assoc ..).symm, ?_⟩
    have hoccurs := hpossible pid (before ++ (l₁ ++ skipped)) (.answered _ a) rest (by simp)
    rw [hst]
    exact hoccurs.2.2 content stat rfl hdecoded hparse
  | _ => cases he

theorem held_of_observes (hpossible : Possible adapter.root (before ++ during)) {t : Tick}
    (hbacked : Backed adapter (answersIn during) t) (h : t.observes key) :
    ∃ past rest, during = past ++ rest ∧ tenant (before ++ past) key.1 = some key.2 := by
  obtain ⟨pids, read, hl, hm, hread, hst⟩ := observes_iff.mp h
  obtain ⟨part, hpart, hreaches⟩ := (hbacked.answered pids hl key.1 hm).process
  rw [hread] at hreaches
  obtain ⟨past, stat, rest, rfl, htenant⟩ := held_of_process hpossible hpart hreaches
  exact ⟨past, _, rfl, hst ▸ htenant⟩

theorem Possible.of_append {rest : List KernelEvent} (h : Possible adapter.root (log ++ rest)) :
    Possible adapter.root log := fun pid => (h pid).of_append

/-- At the start of the log, what a call has observed is found in it. -/
theorem held_of_backed (hpossible : Possible adapter.root log) {t : Tick} (hbacked : Backed adapter (answersIn log) t)
    (h : t.observes key) : Held log key := by
  have hstart : Possible adapter.root ([] ++ log) := hpossible
  exact held_of_observes hstart hbacked h

theorem Possible.lawful (h : Possible adapter.root log) : SlotLog.Lawful tableChange log :=
  (h 0).mono fun _ _ ho => ho.1

/-- Of two generations of a pid that are found one after the other, the first has ended. -/
theorem ended_of_replaced {past past' : List KernelEvent} {pid : Pid} {st st' : UInt64}
    (hlawful : SlotLog.Lawful tableChange (past ++ past')) (hthen : tenant past pid = some st)
    (hnow : tenant (past ++ past') pid = some st') (hne : st' ≠ st) : .ended pid st ∈ past' := by
  obtain ⟨e, hm, he⟩ := SlotLog.left_between hlawful hthen (by rw [← tenant, hnow]; simpa using hne)
  cases e <;> simp_all [tableChange]

theorem backed_flatten {parts : List (Interaction.Transcript Access Access.Answer)} {ticks : List Tick}
    (h : List.Forall₂ (Backed adapter) parts ticks) : ∀ t ∈ ticks, Backed adapter parts.flatten t := by
  induction h with
  | nil => simp
  | cons hbacked _ ih =>
    intro t ht
    rcases List.mem_cons.mp ht with rfl | ht
    · exact hbacked.mono (List.prefix_append _ _).isInfix
    · exact (ih t ht).mono (List.suffix_append _ _).isInfix

/-- Where the accesses of one call stand in the log, after those of the calls before it. -/
structure CallAt (log : List KernelEvent) (parts : List (Interaction.Transcript Access Access.Answer)) (i : ℕ)
    (before during : List KernelEvent) : Prop where
  split : before ++ during <+: log
  earlier : answersIn before = (parts.take i).flatten
  own : parts[i]? = some (answersIn during)

theorem exists_callAt {parts : List (Interaction.Transcript Access Access.Answer)} {i : ℕ}
    (hlog : answersIn log = parts.flatten) (hi : i < parts.length) :
    ∃ before during, CallAt log parts i before during := by
  have hsplit : parts.flatten = (parts.take i).flatten ++ (parts[i] ++ (parts.drop (i + 1)).flatten) := by
    rw [← List.flatten_cons, List.getElem_cons_drop, ← List.flatten_append, List.take_append_drop]
  obtain ⟨before, l, rfl, hbefore, hl⟩ := split_answersIn (hlog.trans hsplit)
  obtain ⟨during, after, rfl, hduring, -⟩ := split_answersIn hl
  refine ⟨before, during, ⟨after, List.append_assoc ..⟩, hbefore, ?_⟩
  rw [hduring, List.getElem?_eq_getElem hi]

theorem CallAt.backed {parts : List (Interaction.Transcript Access Access.Answer)} {past rest : List Tick} {t : Tick}
    (hcall : CallAt log parts past.length before during)
    (h : List.Forall₂ (Backed adapter) parts (past ++ t :: rest)) :
    Backed adapter (answersIn during) t ∧ ∀ u ∈ past, Backed adapter (answersIn before) u := by
  have hpast := List.forall₂_take_append _ _ _ h
  have hlater := List.forall₂_drop_append _ _ _ h
  obtain ⟨hi, hown⟩ := List.getElem?_eq_some_iff.mp hcall.own
  rw [List.drop_eq_getElem_cons hi, hown] at hlater
  refine ⟨?_, hcall.earlier ▸ backed_flatten hpast⟩
  cases hlater with
  | cons hbacked _ => exact hbacked

/-- By the end of a call its events are about generations that have held their pids. -/
theorem held_of_appended {past : List Tick} {t : Tick} (hpossible : Possible adapter.root (before ++ during))
    (hduring : Backed adapter (answersIn during) t) (hbefore : ∀ u ∈ past, Backed adapter (answersIn before) u)
    {e : TimelineEvent} (he : e ∈ (afterRun past).appended t) : Held (before ++ during) e.key := by
  rcases observed_of_appended hduring.distinct he with hobs | hlive
  · obtain ⟨l, r, rfl, hheld⟩ := held_of_observes hpossible hduring hobs
    exact ⟨before ++ l, r, (List.append_assoc ..).symm, hheld⟩
  · obtain ⟨u, hu, hthen⟩ := observed_of_live (fun u hu => (hbefore u hu).distinct) hlive
    obtain ⟨l, r, rfl, hheld⟩ := held_of_backed hpossible.of_append (hbefore u hu) hthen
    exact ⟨l, r ++ during, List.append_assoc .., hheld⟩

/-- Why a call reports an exit: it was given a listing without the pid, or it could not read the process, or this had
ended before the call read the stat line of its pid. -/
def ExitReason (adapter : LinuxAdapter) (before during : List KernelEvent) (key : HistoryKey) : Prop :=
  (∃ part pids, part <:+: answersIn during ∧ adapter.listPids.run.Reaches part (.pure (.ok pids)) ∧ key.1 ∉ pids) ∨
  (∃ part e, part <:+: answersIn during ∧ (adapter.process key.1).run.Reaches part (.pure (.error e))) ∨
  ∃ past stat rest, during = past ++ .answered (.readFile (procPath adapter.root key.1 "stat")) stat :: rest ∧
    .ended key.1 key.2 ∈ before ++ past

/-- A call has its reason for every exit, if the calls before it are those whose accesses stand before its own. -/
theorem exitReason_of_appended {past : List Tick} {t : Tick} (hpossible : Possible adapter.root (before ++ during))
    (hduring : Backed adapter (answersIn during) t) (hbefore : ∀ u ∈ past, Backed adapter (answersIn before) u)
    {e : TimelineEvent} (he : e ∈ (afterRun past).appended t) (hkind : isExited e.kind) :
    ExitReason adapter before during e.key := by
  obtain ⟨pids, hl⟩ := succeeds_of_appended he
  obtain ⟨key, hlive, hobs, rfl⟩ := (exited_mem_appended_iff ⟨pids, hl⟩).mp ⟨he, hkind⟩
  change ExitReason adapter before during key
  by_cases hm : key.1 ∈ pids
  · obtain ⟨part, hpart, hreaches⟩ := (hduring.answered pids hl key.1 hm).process
    cases hread : t.adapter.process key.1 with
    | error source => exact .inr (.inl ⟨part, source, hpart, hread ▸ hreaches⟩)
    | ok read =>
      -- The pid has another holder now, and the live generation held it at a read of an earlier call.
      have hne : read.startTime ≠ key.2 := fun hst =>
        Bool.false_ne_true (hobs.symm.trans (observes_iff.mpr ⟨pids, read, hl, hm, hread, hst⟩))
      obtain ⟨u, hu, hthen⟩ := observed_of_live (fun u hu => (hbefore u hu).distinct) hlive
      obtain ⟨l₁, r₁, rfl, hheld₁⟩ := held_of_backed hpossible.of_append (hbefore u hu) hthen
      rw [hread] at hreaches
      obtain ⟨l₂, stat, r₂, rfl, hheld₂⟩ := held_of_process hpossible hpart hreaches
      rw [List.append_assoc] at hheld₂
      have hlawful : SlotLog.Lawful tableChange (l₁ ++ (r₁ ++ l₂)) := by
        rw [← List.append_assoc] at hpossible
        exact (List.append_assoc l₁ r₁ l₂ ▸ hpossible.of_append).lawful
      have hended := ended_of_replaced hlawful hheld₁ hheld₂ hne
      exact .inr (.inr ⟨l₂, stat, r₂, rfl, by simp only [List.mem_append] at hended ⊢; tauto⟩)
  · obtain ⟨part, hpart, hreaches⟩ := hduring.listed
    exact .inl ⟨part, pids, hpart, hl ▸ hreaches, hm⟩

end Log

/-- However the kernel ends processes and gives pids away while they are read, no event and no row of the
table is about a process that has not existed, and every exit has its reason in the accesses of its own call. -/
theorem events_name_real_generations {adapter : LinuxAdapter} {calls : List Call} {s : ProcessIntelligence}
    {log : List KernelEvent} (hpossible : Possible adapter.root log)
    (hrun : (refreshing adapter calls .new).Reaches (answersIn log) (.pure (some s)))
    (honce : ListsOnce adapter (answersIn log)) :
    ∃ parts ticks, answersIn log = parts.flatten ∧ List.Forall₂ (Backed adapter) parts ticks ∧
      ticks.map Tick.call = calls ∧ s = afterRun ticks ∧
      (∀ e ∈ runEvents ticks, Held log e.key) ∧ (∀ key, s.Live key → Held log key) ∧
      ∀ past t rest, ticks = past ++ t :: rest → ∃ before during, CallAt log parts past.length before during ∧
        ∀ e ∈ (afterRun past).appended t, Held (before ++ during) e.key ∧
          (isExited e.kind → ExitReason adapter before during e.key) := by
  obtain ⟨parts, ticks, hlog, hparts, hcalls, rfl⟩ := refreshing_eq_run honce hrun
  have hbacked := backed_flatten hparts
  rw [← hlog] at hbacked
  have hdistinct : ∀ t ∈ ticks, t.Distinct := fun t ht => (hbacked t ht).distinct
  have hheld {t : Tick} (ht : t ∈ ticks) {key : HistoryKey} (hobs : t.observes key) : Held log key :=
    held_of_backed hpossible (hbacked t ht) hobs
  refine ⟨parts, ticks, hlog, hparts, hcalls, rfl, ?_, ?_, ?_⟩
  · intro e he
    obtain ⟨t, ht, hobs⟩ := observed_of_event hdistinct he
    exact hheld ht hobs
  · intro key hlive
    obtain ⟨t, ht, hobs⟩ := observed_of_live hdistinct hlive
    exact hheld ht hobs
  · rintro past t rest rfl
    have hi : past.length < parts.length := by
      rw [hparts.length_eq]
      simp
    obtain ⟨before, during, hcall⟩ := exists_callAt hlog hi
    obtain ⟨hduring, hbefore⟩ := hcall.backed hparts
    obtain ⟨after, rfl⟩ := hcall.split
    exact ⟨before, during, hcall, fun e he => ⟨held_of_appended hpossible.of_append hduring hbefore he,
      exitReason_of_appended hpossible.of_append hduring hbefore he⟩⟩

section Directories
variable {root : String} {pid pid' : Pid} {a : Access}

theorem toList_toString_pid (pid : Pid) : (toString pid).toList = Text.ofInt pid.toInt := by
  change (toString pid.toInt).toList = _
  rcases pid.toInt with n | n
  · change (Nat.repr n).toList = _
    simp [Nat.repr, Text.ofInt]
  · change ("-" ++ Nat.repr (n + 1)).toList = _
    simp [Nat.repr, Text.ofInt, Int.negSucc_lt_zero, Int.natAbs_negSucc]

theorem slash_notMem_ofInt (n : ℤ) : '/' ∉ Text.ofInt n := by
  intro h
  rcases Text.mem_ofInt h with h | h <;> exact absurd h (by decide)

/-- The pid of a process stands between slashes in the paths of its files. -/
theorem toList_procPath (root : String) : ∃ parent : Text, ∀ (pid : Pid) (name : String),
    name.toList.head? ≠ some '/' →
      (procPath root pid name).toList = parent ++ (Text.ofInt pid.toInt ++ '/' :: name.toList) := by
  refine ⟨if root.toList = [] ∨ root.toList.getLast? = some '/' then root.toList else root.toList ++ ['/'], ?_⟩
  intro pid name hname
  have hhead : (toString pid).toList.head? ≠ some '/' := by
    rw [toList_toString_pid]
    exact fun h => slash_notMem_ofInt _ (List.mem_of_head? h)
  have hdir : (join root (toString pid)).toList =
      (if root.toList = [] ∨ root.toList.getLast? = some '/' then root.toList else root.toList ++ ['/']) ++
        Text.ofInt pid.toInt := by
    rw [join, if_neg hhead, ← toList_toString_pid]
    split_ifs <;> simp
  have hlast : ¬ ((join root (toString pid)).toList = [] ∨
      (join root (toString pid)).toList.getLast? = some '/') := by
    rw [hdir, List.append_eq_nil_iff, List.getLast?_append_of_ne_nil _ (Text.ofInt_ne_nil _)]
    rintro (⟨-, h⟩ | h)
    · exact Text.ofInt_ne_nil _ h
    · exact slash_notMem_ofInt _ (List.mem_of_getLast? h)
  rw [procPath, join, if_neg hname, if_neg hlast, String.toList_append, String.toList_append, hdir]
  simp

theorem inDirectory_procPath (root : String) (pid : Pid) {name : String} (hname : name.toList.head? ≠ some '/') :
    InDirectory root pid (.readFile (procPath root pid name)) := by
  obtain ⟨parent, hparent⟩ := toList_procPath root
  rw [InDirectory, Access.path, hparent pid name hname, hparent pid "" (by simp)]
  exact ⟨name.toList, by simp⟩

/-- No access is in the directories of two processes. -/
theorem inDirectory_unique (h : InDirectory root pid a) (h' : InDirectory root pid' a) : pid = pid' := by
  obtain ⟨parent, hparent⟩ := toList_procPath root
  rw [InDirectory, hparent _ _ (by simp)] at h h'
  obtain ⟨rest, hrest⟩ := h
  obtain ⟨rest', hrest'⟩ := h'
  have heq := hrest.trans hrest'.symm
  simp only [List.append_assoc, List.cons_append] at heq
  have hpids := congrArg (Text.splitOnce '/') (List.append_cancel_left heq)
  rw [Text.splitOnce_append_cons (slash_notMem_ofInt _), Text.splitOnce_append_cons (slash_notMem_ofInt _)] at hpids
  apply Option.some.inj
  rw [← Text.parseI32_ofInt, ← Text.parseI32_ofInt, (Prod.mk.inj (Option.some.inj hpids)).1]

/-- The directory of a process is below the root. -/
theorem not_inDirectory_root (hroot : '/' ∉ root.toList.tail) : ¬ InDirectory root pid (.readDir root) := by
  intro hin
  obtain ⟨parent, hparent⟩ := toList_procPath root
  rw [InDirectory, hparent pid "" (by simp)] at hin
  obtain ⟨rest, hrest⟩ := hin
  change _ = root.toList at hrest
  cases hfirst : parent ++ Text.ofInt pid.toInt with
  | nil => exact Text.ofInt_ne_nil _ (List.append_eq_nil_iff.mp hfirst).2
  | cons c first =>
    rw [← List.append_assoc parent, hfirst] at hrest
    exact hroot (by rw [← hrest]; simp)

end Directories

section Log
variable {root : String} {log : List KernelEvent} {pid : Pid} {startTime : UInt64}
  {t : Interaction.Transcript Access Access.Answer}

theorem statTrue_of_shown {fs : FileSystem} (hheld : tenant log pid = some startTime)
    (hshows : shownStart fs root pid = some startTime) (a : Access) : StatTrue root pid log a (fs a) := by
  cases a with
  | readFile path =>
    rintro content stat rfl hdecoded hparse
    rw [startTime_of_shown hshows hdecoded hparse, hheld]
  | _ => trivial

theorem tenant_answeredAs (log : List KernelEvent) (t : Interaction.Transcript Access Access.Answer) (pid : Pid) :
    tenant (log ++ answeredAs t) pid = tenant log pid := by
  induction t using List.reverseRecOn with
  | nil => rw [answeredAs, List.map_nil, List.append_nil]
  | append_singleton t x ih =>
    rw [answeredAs, List.map_append, ← List.append_assoc]
    exact (SlotLog.holder_concat_of_none tableChange rfl _ pid).trans ih

/-- Accesses to the files of a process that holds its pid, and to no other process's. -/
theorem Possible.accessed (h : Possible root log) (hheld : (tenant log pid).isSome)
    (hdir : ∀ x ∈ t, InDirectory root pid x.1 ∨ ∀ pid', ¬ InDirectory root pid' x.1)
    (hstat : ∀ x ∈ t, StatTrue root pid log x.1 x.2) : Possible root (log ++ answeredAs t) := by
  intro q
  induction t using List.reverseRecOn with
  | nil =>
    rw [answeredAs, List.map_nil, List.append_nil]
    exact h q
  | append_singleton t x ih =>
    have hpast := ih (fun y hy => hdir y (List.mem_append_left _ hy)) fun y hy => hstat y (List.mem_append_left _ hy)
    rw [answeredAs, List.map_append, ← List.append_assoc]
    obtain ⟨a, answer⟩ := x
    have hx : InDirectory root q a → q = pid := by
      intro hin
      rcases hdir ⟨a, answer⟩ (by simp) with hx | hx
      · exact inDirectory_unique hin hx
      · exact absurd hin (hx q)
    have htrue : StatTrue root pid log a answer := hstat ⟨a, answer⟩ (by simp)
    refine hpast.concat ⟨trivial, ?_, ?_⟩
    · intro hin _
      obtain rfl := hx hin
      exact (tenant_answeredAs log t q).symm ▸ hheld
    · cases a with
      | readFile path =>
        rintro content stat rfl hdecoded hparse
        obtain rfl := hx (inDirectory_procPath root q (by decide))
        exact (tenant_answeredAs log t q).trans (htrue content stat rfl hdecoded hparse)
      | _ => trivial

theorem Possible.started (h : Possible root log)
    (hallows : SlotLog.Allows tableChange log (.started pid startTime)) :
    Possible root (log ++ [.started pid startTime]) := fun q => (h q).concat ⟨hallows, trivial⟩

theorem Possible.ended (h : Possible root log) (hheld : tenant log pid = some startTime) :
    Possible root (log ++ [.ended pid startTime]) := fun q => (h q).concat ⟨hheld, trivial⟩

end Log

theorem answersIn_answeredAs (t : Interaction.Transcript Access Access.Answer) : answersIn (answeredAs t) = t := by
  rw [answersIn, answeredAs, List.filterMap_map]
  exact List.filterMap_some

/-- The kernel's log of a daemon that one call finds, and the next one lists. -/
def listedLog : List KernelEvent := [.started 42 98765] ++ answeredAs (daemonAccesses ++ restartAccesses.take 1)

/-- The daemon is then replaced before its files are read again. -/
def daemonLog : List KernelEvent :=
  listedLog ++ [.ended 42 98765] ++ [.started 42 99000] ++ answeredAs (restartAccesses.drop 1)

theorem answersIn_daemonLog : answersIn daemonLog = daemonAccesses ++ restartAccesses := by
  have hstarted : answersIn [.started 42 98765] = [] := rfl
  have hended : answersIn [.ended 42 98765] = [] := rfl
  have hreplaced : answersIn [.started 42 99000] = [] := rfl
  simp only [daemonLog, listedLog, answersIn_append, answersIn_answeredAs, hstarted, hended, hreplaced,
    List.nil_append, List.append_assoc, List.take_append_drop]

theorem daemonLog_directories : ∀ x ∈ daemonAccesses ++ restartAccesses,
    InDirectory "/proc" 42 x.1 ∨ ∀ pid, ¬ InDirectory "/proc" pid x.1 := by
  intro x hx
  have hpaths : ∀ a ∈ (daemonAccesses ++ restartAccesses).map (·.1),
      (procPath "/proc" 42 "").toList <+: a.path.toList ∨ a = .readDir "/proc" := by decide +kernel
  rcases hpaths _ (List.mem_map_of_mem hx) with h | h
  · exact .inl h
  · exact .inr fun pid => h ▸ not_inDirectory_root (by decide)

theorem tenant_listedLog : tenant listedLog 42 = some 98765 := (tenant_answeredAs _ _ 42).trans rfl

theorem possible_listedLog : Possible "/proc" listedLog := by
  have hshown : shownStart loneDaemon "/proc" 42 = some 98765 := by decide +kernel
  have hlisting : (restartAccesses.take 1).map (·.1) = [.readDir "/proc"] := by decide +kernel
  have hempty : Possible "/proc" [] := fun _ => .nil
  have hstarted : Possible "/proc" [.started 42 98765] := hempty.started ⟨rfl, by simp⟩
  have halive : (tenant [.started 42 98765] 42).isSome := rfl
  refine hstarted.accessed halive (fun x hx => daemonLog_directories x ?_) fun x hx => ?_
  · simp only [List.mem_append] at hx ⊢
    exact hx.imp_right List.mem_of_mem_take
  · rcases List.mem_append.mp hx with hx | hx
    · rw [Interaction.answer_of_mem_transcript loneDaemon _ hx]
      exact statTrue_of_shown rfl hshown x.1
    · have hasked : x.1 ∈ (restartAccesses.take 1).map (·.1) := List.mem_map_of_mem hx
      rw [hlisting, List.mem_singleton] at hasked
      obtain ⟨a, answer⟩ := x
      obtain rfl : a = .readDir "/proc" := hasked
      trivial

theorem possible_daemonLog : Possible "/proc" daemonLog := by
  have hshown : shownStart restartedDaemon "/proc" 42 = some 99000 := by decide +kernel
  have hended := possible_listedLog.ended tenant_listedLog
  have hfree : SlotLog.Allows tableChange (listedLog ++ [.ended 42 98765]) (.started 42 99000) := by
    refine ⟨by rw [SlotLog.holder_concat]; rfl, fun e he => ?_⟩
    rcases List.mem_append.mp he with he | he
    · rcases List.mem_append.mp he with he | he
      · simp [List.mem_singleton.mp he, tableChange]
      · obtain ⟨x, -, rfl⟩ := List.mem_map.mp he
        simp [tableChange]
    · simp [List.mem_singleton.mp he, tableChange]
  have htenant := tenant_started (listedLog ++ [.ended 42 98765]) 42 99000
  refine (hended.started hfree).accessed (Option.isSome_iff_exists.mpr ⟨99000, htenant⟩)
    (fun x hx => daemonLog_directories x (List.mem_append_right _ (List.mem_of_mem_drop hx))) fun x hx => ?_
  rw [Interaction.answer_of_mem_transcript restartedDaemon _ (List.mem_of_mem_drop hx)]
  exact statTrue_of_shown htenant hshown x.1

/-- The later call reports the end of the process that the earlier one found. -/
theorem events_name_real_generations_of_daemon :
    ∃ before during, before ++ during <+: daemonLog ∧ ExitReason hostAdapter before during (42, 98765) := by
  have hreaches := reaches_restart
  have honce := listsOnce_restart
  rw [← answersIn_daemonLog] at hreaches honce
  obtain ⟨parts, ticks, -, -, -, hs, -, -, hcalls⟩ :=
    @events_name_real_generations hostAdapter _ _ _ possible_daemonLog hreaches honce
  have hexit : afterRestart.timeline.any (fun e => isExited e.kind && e.key = (42, 98765)) := by decide +kernel
  obtain ⟨e, he, hkind⟩ := List.any_eq_true.mp hexit
  rw [Bool.and_eq_true, decide_eq_true_iff] at hkind
  rw [hs, timeline_run] at he
  obtain ⟨n, hn⟩ := List.mem_iff_getElem?.mp (mem_of_mem_rtake he)
  obtain ⟨past, t, later, hticks, -, -, happended⟩ := runEvents_origin hn
  obtain ⟨before, during, hcall, hevents⟩ := hcalls past t later hticks
  exact ⟨before, during, hcall.split, hkind.2 ▸ (hevents e happended).2 hkind.1⟩

end ProcessExplorer.Intelligence
