import ProcessExplorer.Intelligence.HistoryLog

/-! When refresh_at reports memory growth over a run of unbroken observations. -/
namespace ProcessExplorer.Intelligence
open Library Model Telemetry

/-- Just below one half the product with 100 still rounds to less than 50. -/
theorem toDouble_below_threshold : toDouble ((1 / 2 - 1 / 2 ^ 54) * 100) < 50 := by
  have hpos : (0 : ℚ) < (1 / 2 - 1 / 2 ^ 54) * 100 := by norm_num
  have hlow := (two_zpow_le_iff hpos 5).mp (by norm_num)
  have hhigh : ¬ (6 : ℤ) ≤ Int.log 2 (((1 : ℚ) / 2 - 1 / 2 ^ 54) * 100) := by
    rw [← two_zpow_le_iff hpos]
    norm_num
  have hulp : ulp ((1 / 2 - 1 / 2 ^ 54) * 100) = 1 / 2 ^ 47 := by
    rw [ulp, abs_of_pos hpos, show Int.log 2 (((1 : ℚ) / 2 - 1 / 2 ^ 54) * 100) = 5 by omega]
    norm_num
  have hfloor : ⌊((1 : ℚ) / 2 - 1 / 2 ^ 54) * 100 / (1 / 2 ^ 47)⌋ = 50 * 2 ^ 47 - 1 := by
    rw [Int.floor_eq_iff]
    norm_num
  rw [toDouble, hulp, roundEven, hfloor]
  norm_num

/-- Rounded sizes that have not grown by one half stay clear of it by half a unit. -/
theorem ratio_le_of_below {before after : ℚ} (hb : 0 < before) (h : before ≤ after)
    (hlt : 2 * toDouble after < 3 * toDouble before) :
    (toDouble after - toDouble before) / toDouble before ≤ 1 / 2 - 1 / 2 ^ 54 := by
  obtain ⟨j, hj⟩ := toDouble_eq_mul_ulp hb h
  have hB : toDouble before = roundEven (before / ulp before) * ulp before := rfl
  have hk := (significand_bounds hb).2
  generalize roundEven (before / ulp before) = k at hB hk
  have hu := ulp_pos before
  have hjk : 2 * j + 1 ≤ 3 * k := by
    rw [hj, hB, ← mul_assoc, ← mul_assoc] at hlt
    have : 2 * j < 3 * k := by exact_mod_cast lt_of_mul_lt_mul_right hlt hu.le
    omega
  have hjk' : (2 : ℚ) * j + 1 ≤ 3 * k := by exact_mod_cast hjk
  have hk' : (k : ℚ) ≤ 2 ^ 53 := by exact_mod_cast hk
  have hratio : (j - k : ℚ) ≤ (1 / 2 - 1 / 2 ^ 54) * k := by linarith
  rw [div_le_iff₀ (toDouble_pos hb), hj, hB]
  calc j * ulp before - k * ulp before = (j - k) * ulp before := by ring
    _ ≤ (1 / 2 - 1 / 2 ^ 54) * k * ulp before := mul_le_mul_of_nonneg_right hratio hu.le
    _ = (1 / 2 - 1 / 2 ^ 54) * (k * ulp before) := by ring

/-- The threshold test on rounded sizes: it holds exactly when the rounded sizes
themselves have grown by one half. -/
theorem threshold_iff (before after : ℚ) (hb : 0 < before) (h : before ≤ after) :
    50 ≤ toDouble (toDouble (toDouble (toDouble after - toDouble before) / toDouble before) * 100) ↔
      3 * toDouble before ≤ 2 * toDouble after := by
  have hB := toDouble_pos hb
  have hmono := toDouble_mono hb h
  constructor
  · intro h50
    by_contra hlt
    rw [not_le] at hlt
    rcases hmono.eq_or_lt with heq | hgt
    · rw [← heq, sub_self, toDouble_zero, zero_div, toDouble_zero, zero_mul, toDouble_zero] at h50
      linarith
    · have hexact := toDouble_of_isDouble (sub_pos.mpr hgt)
        (isDouble_sub_toDouble hb h (by linarith))
      have hratio : toDouble ((toDouble after - toDouble before) / toDouble before) ≤
          1 / 2 - 1 / 2 ^ 54 :=
        toDouble_le (div_pos (sub_pos.mpr hgt) hB) ⟨2 ^ 53 - 1, -54, by norm_num, by norm_num⟩
          (ratio_le_of_below hb h hlt)
      have hpos := toDouble_pos (div_pos (sub_pos.mpr hgt) hB)
      rw [hexact] at h50
      have hle := toDouble_mono (mul_pos hpos (by norm_num : (0 : ℚ) < 100))
        (mul_le_mul_of_nonneg_right hratio (by norm_num))
      linarith [toDouble_below_threshold]
  · intro hgrown
    have hhalf : IsDouble (toDouble before / 2) := by
      obtain ⟨m, e, hm, he⟩ := isDouble_toDouble hb
      refine ⟨m, e - 1, hm, ?_⟩
      rw [he, zpow_sub_one₀ (by norm_num)]
      ring
    have hdiff : toDouble before / 2 ≤ toDouble (toDouble after - toDouble before) :=
      le_toDouble (by linarith) hhalf (by linarith)
    have hratio : 1 / 2 ≤ toDouble (toDouble (toDouble after - toDouble before) / toDouble before) := by
      apply le_toDouble (by norm_num) ⟨1, -1, by norm_num, by norm_num⟩
      rw [le_div_iff₀ hB]
      linarith
    exact le_toDouble (by norm_num) ⟨50, 0, by norm_num, by norm_num⟩ (by linarith)

/-- The time difference of the source wraps at 64 bits. -/
theorem window_le_iff {earlier now : Int64} (h : earlier ≤ now) :
    defaultGrowthWindowSecs ≤ now - earlier ↔
      3600 ≤ now.toInt - earlier.toInt ∧ now.toInt - earlier.toInt < 2 ^ 63 := by
  have hle := Int64.le_iff_toInt_le.mp h
  have := earlier.le_toInt
  have := now.toInt_lt
  rw [Int64.le_iff_toInt_le, Int64.toInt_sub, show defaultGrowthWindowSecs.toInt = 3600 from rfl,
    Int.bmod_def]
  norm_num
  split <;> omega

def isGrowth : TimelineEventKind → Bool
  | .memoryGrowthThresholdCrossed _ _ => true
  | _ => false

/-- Some of the events says that memory of this generation has grown. -/
def GrowthReported (key : HistoryKey) (events : List TimelineEvent) : Prop :=
  ∃ e ∈ events, e.key = key ∧ isGrowth e.kind

abbrev RssReading := Int64 × UInt64

/-- The times and sizes that a history holds. -/
def rssLog (hist : Option (List Sample)) : List RssReading :=
  (hist.getD []).map fun entry => (entry.1, entry.2.memory.rss)

/-- The readings that one call adds: one for every time that the pid is listed. -/
def Tick.rssReadings (t : Tick) (pid : Pid) : List RssReading :=
  match t.adapter.listPids, t.adapter.process pid with
  | .ok pids, .ok read => List.replicate (pids.count pid) (t.now, read.memory.rss)
  | _, _ => []

def inWindow (now : Int64) (reading : RssReading) : Bool :=
  defaultGrowthWindowSecs ≤ now - reading.1

/-- The newest reading outside the window is positive and by one half smaller. -/
def Crosses (now : Int64) (log : List RssReading) (rss : UInt64) : Prop :=
  ∃ x ∈ log.reverse.find? (inWindow now), 0 < x.2 ∧
    50 ≤ toDouble (toDouble (toDouble (toDouble rss.toNat - toDouble x.2.toNat) /
      toDouble x.2.toNat) * 100)

instance (now : Int64) (log : List RssReading) (rss : UInt64) : Decidable (Crosses now log rss) :=
  inferInstanceAs (Decidable (∃ x ∈ log.reverse.find? (inWindow now), _))

theorem growthEvents_ne_nil_iff (now : Int64) (pid : Pid) (hist : Option (List Sample))
    (snap : ProcessSnapshot) :
    growthEvents now pid hist snap ≠ [] ↔ Crosses now (rssLog hist) snap.memory.rss := by
  have hfind : (rssLog hist).reverse.find? (inWindow now) =
      (hist.bind (growthBaseline now)).map fun entry => (entry.1, entry.2.memory.rss) := by
    cases hist with
    | none => rfl
    | some hist =>
      rw [rssLog, ← List.map_reverse, List.find?_map]
      rfl
  rw [growthEvents, Crosses]
  rw [hfind]
  cases hist.bind (growthBaseline now) with
  | none => simp
  | some entry =>
    simp only [Option.map_some, Option.mem_some_iff, exists_eq_left']
    split
    · rename_i h
      exact ⟨fun _ => h, fun _ => List.cons_ne_nil _ _⟩
    · rename_i h
      exact ⟨fun hne => absurd rfl hne, fun hc => absurd hc h⟩

theorem growthReported_ownEvents {s : ProcessIntelligence} {t : Tick} {pid : Pid}
    {read : ProcessSnapshot} {hist : Option (List Sample)} {seen : Option (Finset String)} :
    GrowthReported (pid, read.startTime) (ownEvents s t pid read hist seen) ↔
      Crosses t.now (rssLog hist) read.memory.rss := by
  have hrss : (rateSnapshot t.now hist read).memory.rss = read.memory.rss := by simp
  rw [← hrss, ← growthEvents_ne_nil_iff t.now pid]
  unfold GrowthReported ownEvents
  constructor
  · rintro ⟨e, he, -, hk⟩ hnil
    dsimp only at he
    rw [hnil, List.append_nil] at he
    rcases List.mem_append.mp he with he | he
    · split at he
      · cases he
      · obtain rfl := List.mem_singleton.mp he
        cases hk
    · obtain ⟨_, rfl⟩ := mem_connectionEvents he
      cases hk
  · intro hne
    obtain ⟨e, he⟩ := List.exists_mem_of_ne_nil _ hne
    refine ⟨e, List.mem_append_left _ (List.mem_append_right _ he), ?_⟩
    obtain ⟨_, rfl⟩ := mem_growthEvents he
    exact ⟨by simp [growthEvent, TimelineEvent.key], rfl⟩

theorem GrowthReported.append_iff {key : HistoryKey} {l r : List TimelineEvent} :
    GrowthReported key (l ++ r) ↔ GrowthReported key l ∨ GrowthReported key r := by
  simp [GrowthReported, or_and_right, exists_or]

theorem inWindow_now (now : Int64) (rss : UInt64) : inWindow now (now, rss) = false := by
  rw [inWindow, Int64.sub_self]
  rfl

/-- Readings of the current call neither hide a baseline nor become one. -/
theorem Crosses.of_pushed {now : Int64} {log : List RssReading} {n : Nat} {rss rss' : UInt64}
    (h : Crosses now ((log ++ List.replicate n (now, rss')).rtake 120) rss) : Crosses now log rss := by
  obtain ⟨x, hx, hcross⟩ := h
  refine ⟨x, ?_, hcross⟩
  rw [List.rtake_eq_reverse_take_reverse, List.reverse_reverse] at hx
  have hfull := (List.take_prefix _ _).find?_eq_some hx
  have hnone : (List.replicate n (now, rss')).find? (inWindow now) = none :=
    List.find?_eq_none.mpr fun y hy => by
      rw [List.eq_of_mem_replicate hy, inWindow_now]
      exact Bool.false_ne_true
  rwa [List.reverse_append, List.reverse_replicate, List.find?_append, hnone, Option.none_or] at hfull

theorem rssLog_pushSample (hist : Option (List Sample)) (now : Int64) (snap : ProcessSnapshot) :
    rssLog (some (pushSample 120 hist (now, snap))) =
      (rssLog hist ++ [(now, snap.memory.rss)]).rtake 120 := by
  rw [rssLog, Option.getD_some, pushSample, trimFront_eq_rtake, map_rtake, List.map_append]
  rfl

section Iterations
variable {s : ProcessIntelligence} {t : Tick} {pid : Pid} {read : ProcessSnapshot}

theorem observe_eq_absorb (hr : t.adapter.process pid = .ok read) (v : PidPart) :
    v.observe s t pid = v.absorb s t pid read := by
  simp [PidPart.observe, hr]

theorem iterate_observed (hr : t.adapter.process pid = .ok read) (v : PidPart) (n : Nat) :
    ((PidPart.observe s t pid)^[n + 1] v).observed read.startTime = true := by
  rw [Function.iterate_succ_apply', observe_eq_absorb hr]
  exact Function.update_self _ _ _

theorem iterate_history (hc : s.historyCapacity = 120) (hr : t.adapter.process pid = .ok read)
    (v : PidPart) (n : Nat) :
    rssLog (((PidPart.observe s t pid)^[n + 1] v).history read.startTime) =
      (rssLog (v.history read.startTime) ++
        List.replicate (n + 1) (t.now, read.memory.rss)).rtake 120 := by
  induction n with
  | zero =>
    rw [Function.iterate_one, observe_eq_absorb hr]
    simp [PidPart.absorb, hc, rssLog_pushSample]
  | succ n ih =>
    rw [Function.iterate_succ_apply', observe_eq_absorb hr]
    simp only [PidPart.absorb, Function.update_self, hc, rssLog_pushSample, rateSnapshot_memory, ih]
    rw [rtake_rtake_append, List.append_assoc, ← List.replicate_succ']

/-- Repeated readings in one call report growth exactly when the first of them does. -/
theorem iterate_own (hc : s.historyCapacity = 120) (hr : t.adapter.process pid = .ok read)
    (v : PidPart) (n : Nat) :
    GrowthReported (pid, read.startTime) ((PidPart.observe s t pid)^[n + 1] v).own ↔
      GrowthReported (pid, read.startTime) v.own ∨
        Crosses t.now (rssLog (v.history read.startTime)) read.memory.rss := by
  induction n with
  | zero =>
    rw [Function.iterate_one, observe_eq_absorb hr]
    simp only [PidPart.absorb, GrowthReported.append_iff, growthReported_ownEvents]
  | succ n ih =>
    rw [Function.iterate_succ_apply', observe_eq_absorb hr]
    simp only [PidPart.absorb, GrowthReported.append_iff, growthReported_ownEvents, ih,
      iterate_history hc hr]
    constructor
    · rintro (h | h)
      · exact h
      · exact .inr h.of_pushed
    · exact .inl

end Iterations

theorem observes_iff {t : Tick} {pid : Pid} {st : UInt64} :
    t.observes (pid, st) = true ↔ ∃ pids read, t.adapter.listPids = .ok pids ∧ pid ∈ pids ∧
      t.adapter.process pid = .ok read ∧ read.startTime = st := by
  rw [Tick.observes, Tick.reading]
  cases t.adapter.listPids with
  | error e => simp
  | ok pids => cases hp : t.adapter.process pid <;> simp [Except.toOption]

/-- Growth of a generation is among the events that its pid causes about itself. -/
theorem growthReported_passEvents {s : ProcessIntelligence} {t : Tick} {p : Pass} {pid : Pid}
    {st : UInt64} :
    GrowthReported (pid, st) (s.passEvents t p) ↔ GrowthReported (pid, st) (p.part pid).own := by
  constructor
  · rintro ⟨e, he, hkey, hk⟩
    rcases List.mem_append.mp he with he | he
    · refine ⟨e, List.mem_filter.mpr ⟨he, ?_⟩, hkey, hk⟩
      have hpid : e.pid = pid := congrArg Prod.fst hkey
      cases hkind : e.kind <;> simp [hkind, isGrowth] at hk
      simp [isOwn, hpid, hkind, isNewChild]
    · obtain ⟨_, _, rfl⟩ := List.mem_map.mp he
      cases hk
  · rintro ⟨e, he, h⟩
    exact ⟨e, List.mem_append_left _ (List.mem_of_mem_filter he), h⟩

/-- One observing call: the generation is not stale afterwards, its history has grown
by the readings of the call, and growth is reported by comparison with the history before. -/
theorem observing_call {s : ProcessIntelligence} {t : Tick} {pid : Pid} {st : UInt64}
    (hc : Configured s) (ho : t.observes (pid, st)) :
    (pid, st) ∉ (s.refreshAt t).1.staleKeys ∧
      rssLog ((s.refreshAt t).1.history.lookup (pid, st)) =
        (rssLog (s.drainStale.history.lookup (pid, st)) ++ t.rssReadings pid).rtake 120 ∧
      ∃ rss n, (t.reading pid).map (·.memory.rss) = some rss ∧
        t.rssReadings pid = List.replicate (n + 1) (t.now, rss) ∧
        (GrowthReported (pid, st) (s.appended t) ↔
          Crosses t.now (rssLog (s.drainStale.history.lookup (pid, st))) rss) := by
  obtain ⟨pids, read, hl, hm, hr, rfl⟩ := observes_iff.mp ho
  obtain ⟨n, hn⟩ := Nat.exists_eq_succ_of_ne_zero (List.count_pos_iff.mpr hm).ne'
  have hcap : s.drainStale.historyCapacity = 120 := hc.history
  have hpart : (s.drainStale.scan t pids).part pid =
      (PidPart.observe s.drainStale t pid)^[n + 1] (s.drainStale.passStart.part pid) := by
    rw [← Nat.succ_eq_add_one, ← hn]
    exact (passBody s.drainStale t).part_foldl pid pids _
  have hreadings : t.rssReadings pid = List.replicate (n + 1) (t.now, read.memory.rss) := by
    simp [Tick.rssReadings, hl, hr, hn]
  refine ⟨?_, ?_, read.memory.rss, n, by simp [Tick.reading, hl, hm, hr, Except.toOption], hreadings, ?_⟩
  · simp only [ProcessIntelligence.refreshAt, hl, ProcessIntelligence.commit, Visit.mem_run,
      mem_exitedKeys, hpart, iterate_observed hr]
    simp
  · have := iterate_history hcap hr (s.drainStale.passStart.part pid) n
    rw [← hpart, ← hreadings, part_passStart] at this
    simp only [ProcessIntelligence.refreshAt, hl]
    exact this
  · have hown := iterate_own hcap hr (s.drainStale.passStart.part pid) n
    rw [← hpart, part_passStart] at hown
    have hnil : ¬ GrowthReported (pid, read.startTime) [] := by simp [GrowthReported]
    rw [or_iff_right hnil] at hown
    rw [← hown]
    simp only [ProcessIntelligence.appended, hl]
    exact growthReported_passEvents

/-- Along unbroken observations the history holds the newest 120 readings. -/
theorem rssLog_run (pre : List Tick) {mid : List Tick} {base : Tick} {pid : Pid} {st : UInt64}
    (ho : ∀ t ∈ base :: mid, t.observes (pid, st)) :
    (pid, st) ∉ (afterRun (pre ++ base :: mid)).staleKeys ∧
      rssLog ((afterRun (pre ++ base :: mid)).history.lookup (pid, st)) =
        (rssLog ((afterRun pre).drainStale.history.lookup (pid, st)) ++ base.rssReadings pid ++
          mid.flatMap (·.rssReadings pid)).rtake 120 := by
  induction mid using List.reverseRecOn with
  | nil =>
    rw [afterRun_concat, List.flatMap_nil, List.append_nil]
    obtain ⟨hstale, hlog, -⟩ := observing_call (configured_run pre) (ho base (by simp))
    exact ⟨hstale, hlog⟩
  | append_singleton mid t ih =>
    obtain ⟨hstale, hlog⟩ := ih fun x hx => ho x (by simp at hx ⊢; tauto)
    have hsplit : pre ++ base :: (mid ++ [t]) = pre ++ base :: mid ++ [t] := by simp
    rw [hsplit, afterRun_concat]
    obtain ⟨hstale', hlog', -⟩ := observing_call (configured_run (pre ++ base :: mid)) (ho t (by simp))
    refine ⟨hstale', ?_⟩
    rw [hlog', ProcessIntelligence.drainStale, HashMap.lookup_eraseAll, if_neg hstale, hlog,
      rtake_rtake_append, List.flatMap_append, List.flatMap_singleton,
      List.append_assoc _ _ (t.rssReadings pid)]

def TimesAtMost (bound : Int64) (history : HashMap HistoryKey (List Sample)) : Prop :=
  ∀ key, ∀ x ∈ rssLog (history.lookup key), x.1 ≤ bound

theorem TimesAtMost.drainStale {bound : Int64} {s : ProcessIntelligence}
    (h : TimesAtMost bound s.history) : TimesAtMost bound s.drainStale.history := by
  intro key x hx
  rw [ProcessIntelligence.drainStale, HashMap.lookup_eraseAll] at hx
  split at hx
  · cases hx
  · exact h key x hx

theorem TimesAtMost.observe {bound : Int64} {s : ProcessIntelligence} {t : Tick} {p : Pass}
    (h : TimesAtMost bound p.history) (ht : t.now ≤ bound) (pid : Pid) :
    TimesAtMost bound (observe s t p pid).history := by
  rw [Intelligence.observe]
  cases t.adapter.process pid with
  | error e => exact h
  | ok read =>
    intro key x hx
    rw [HashMap.lookup_insert] at hx
    split at hx
    · obtain ⟨entry, he, rfl⟩ := List.mem_map.mp hx
      rcases mem_pushSample he with he | rfl
      · exact h _ _ (List.mem_map_of_mem he)
      · exact ht
    · exact h key x hx

/-- Entries of a history carry the time of some call of the run. -/
theorem timesAtMost_run {ticks : List Tick} {bound : Int64} (hb : ∀ t ∈ ticks, t.now ≤ bound) :
    TimesAtMost bound (afterRun ticks).history := by
  refine service.invariant (P := fun s => TimesAtMost bound s.history) (A := fun t => t.now ≤ bound)
    ?_ ?_ ticks hb
  · intro key x hx
    cases hx
  · intro s t hs ht
    have hdrain := hs.drainStale
    simp only [service, ProcessIntelligence.refreshAt]
    split
    · exact hdrain
    · rename_i pids hl
      clear hl
      have hfold (p : Pass) (hp : TimesAtMost bound p.history) :
          TimesAtMost bound (pids.foldl (observe s.drainStale t) p).history := by
        induction pids generalizing p with
        | nil => exact hp
        | cons pid pids ih => exact ih _ (hp.observe ht pid)
      exact hfold _ hdrain

theorem not_crosses_of_forall {now : Int64} {log : List RssReading} {rss : UInt64}
    (h : ∀ x ∈ log, inWindow now x = false) : ¬ Crosses now log rss := by
  rintro ⟨x, hx, -⟩
  have hin := List.find?_some (Option.mem_def.mp hx)
  rw [h x (List.mem_reverse.mp (List.mem_of_find?_eq_some hx))] at hin
  cases hin

theorem inWindow_iff {now : Int64} {x : RssReading} (h : x.1 ≤ now) :
    inWindow now x = true ↔ 3600 ≤ now.toInt - x.1.toInt ∧ now.toInt - x.1.toInt < 2 ^ 63 := by
  rw [inWindow, decide_eq_true_iff, window_le_iff h]

/-- Once the difference to one reading wraps, so does that to every older one. -/
theorem inWindow_of_wrapped {now start : Int64} {x : RssReading} (hx : x.1 ≤ start)
    (hstart : start ≤ now) (hwrap : ¬ now.toInt - start.toInt < 2 ^ 63) : inWindow now x = false := by
  have hle := Int64.le_iff_toInt_le.mp hx
  cases hin : inWindow now x with
  | false => rfl
  | true =>
    have hage := ((inWindow_iff (Int64.le_trans hx hstart)).mp hin).2
    omega

/-- The newest reading outside the window, when the readings inside leave room for it. -/
theorem find?_baseline {old mid : List RssReading} {now : Int64} {x : RssReading} {n : Nat}
    (hx : inWindow now x = true) (hmid : ∀ y ∈ mid, inWindow now y = false) (hlt : mid.length < 120) :
    ((old ++ List.replicate (n + 1) x ++ mid).rtake 120).reverse.find? (inWindow now) = some x := by
  have hmidNone : mid.reverse.find? (inWindow now) = none :=
    List.find?_eq_none.mpr fun y hy => by simp [hmid y (List.mem_reverse.mp hy)]
  rw [List.replicate_succ', ← List.append_assoc old, rtake_append_of_ge _ _ hlt.le,
    rtake_concat _ (by omega), List.reverse_append, List.reverse_append, List.find?_append, hmidNone,
    Option.none_or, List.reverse_singleton, List.singleton_append, List.find?_cons_of_pos hx]

/-- The search in the buffer of readings finds the baseline, or nothing. -/
theorem crosses_buffer_iff {old mid : List RssReading} {now start : Int64} {before after : UInt64}
    {n : Nat} (hold : ∀ x ∈ old, x.1 ≤ start) (hstart : start ≤ now)
    (hage : 3600 ≤ now.toInt - start.toInt) (hmid : ∀ x ∈ mid, inWindow now x = false)
    (hb : 0 < before) (hgrow : before ≤ after) :
    Crosses now ((old ++ List.replicate (n + 1) (start, before) ++ mid).rtake 120) after ↔
      mid.length < 120 ∧ now.toInt - start.toInt < 2 ^ 63 ∧
        3 * toDouble before.toNat ≤ 2 * toDouble after.toNat := by
  rcases Nat.lt_or_ge mid.length 120 with hlt | hge
  · rw [and_iff_right hlt]
    by_cases hwrap : now.toInt - start.toInt < 2 ^ 63
    · have hin : inWindow now (start, before) = true :=
        (inWindow_iff (x := (start, before)) hstart).mpr ⟨hage, hwrap⟩
      have hthreshold := threshold_iff before.toNat after.toNat
        (by exact_mod_cast UInt64.lt_iff_toNat_lt.mp hb)
        (by exact_mod_cast UInt64.le_iff_toNat_le.mp hgrow)
      rw [and_iff_right hwrap, Crosses, find?_baseline hin hmid hlt]
      simpa [hb] using hthreshold
    · rw [iff_false_right fun h => hwrap h.1]
      apply not_crosses_of_forall
      intro x hx
      rcases List.mem_append.mp (mem_of_mem_rtake hx) with hx | hx
      · refine inWindow_of_wrapped ?_ hstart hwrap
        rcases List.mem_append.mp hx with hx | hx
        · exact hold x hx
        · rw [List.eq_of_mem_replicate hx]
          exact Int64.le_refl _
      · exact hmid x hx
  · rw [iff_false_right fun h => absurd h.1 (Nat.not_lt.mpr hge), rtake_append_of_le _ _ hge]
    exact not_crosses_of_forall fun x hx => hmid x (mem_of_mem_rtake hx)

/-- The last call of an unbroken run compares with the readings that the buffer still holds. -/
theorem growthReported_run (pre : List Tick) {mid : List Tick} {base last : Tick} {pid : Pid}
    {st after : UInt64} (hobs : ∀ t ∈ base :: mid ++ [last], t.observes (pid, st))
    (hafter : (last.reading pid).map (·.memory.rss) = some after) :
    GrowthReported (pid, st) ((afterRun (pre ++ base :: mid)).appended last) ↔
      Crosses last.now ((rssLog ((afterRun pre).drainStale.history.lookup (pid, st)) ++
        base.rssReadings pid ++ mid.flatMap (·.rssReadings pid)).rtake 120) after := by
  obtain ⟨hstale, hlog⟩ := rssLog_run pre fun t ht => hobs t (List.mem_append_left _ ht)
  obtain ⟨-, -, rss, n, hrss, -, hreport⟩ :=
    observing_call (configured_run (pre ++ base :: mid)) (hobs last (by simp))
  obtain rfl : rss = after := Option.some.inj (hrss.symm.trans hafter)
  rw [hreport, ProcessIntelligence.drainStale, HashMap.lookup_eraseAll, if_neg hstale, hlog]

/-- Growth over an unbroken run of observations is among the events that the last call adds to the timeline exactly
when the readings between baseline and now fit in the history, their time difference fits in 64 bits, and the sizes
have still grown by one half after rounding to doubles. -/
theorem growth_detected_iff (pre mid : List Tick) (base last : Tick) (key : HistoryKey)
    {before after : UInt64}
    (hmono : ((pre ++ base :: mid ++ [last]).map Tick.now).Pairwise (· ≤ ·))
    (hobs : ∀ t ∈ base :: mid ++ [last], t.observes key)
    (hbase : 3600 ≤ last.now.toInt - base.now.toInt)
    (hmid : ∀ t ∈ mid, last.now.toInt - t.now.toInt < 3600)
    (hbefore : (base.reading key.1).map (·.memory.rss) = some before)
    (hafter : (last.reading key.1).map (·.memory.rss) = some after)
    (hpos : 0 < before) (hgrown : (1 / 2 : ℚ) ≤ ((after.toNat : ℚ) - before.toNat) / before.toNat) :
    ((afterRun (pre ++ base :: mid)).refreshAt last).1.timeline =
        ((afterRun (pre ++ base :: mid)).timeline ++ (afterRun (pre ++ base :: mid)).appended last).rtake 1000 ∧
      (GrowthReported key ((afterRun (pre ++ base :: mid)).appended last) ↔
        (mid.flatMap (·.rssReadings key.1)).length < 120 ∧
          last.now.toInt - base.now.toInt < 2 ^ 63 ∧
          3 * toDouble before.toNat ≤ 2 * toDouble after.toNat) := by
  refine ⟨timeline_appended _ last, ?_⟩
  obtain ⟨pid, st⟩ := key
  obtain ⟨-, -, rss, n, hrss, hreadings, -⟩ := observing_call (configured_run pre) (hobs base (by simp))
  obtain rfl : rss = before := Option.some.inj (hrss.symm.trans hbefore)
  have hposQ : (0 : ℚ) < rss.toNat := by exact_mod_cast UInt64.lt_iff_toNat_lt.mp hpos
  have hle : rss ≤ after := by
    rw [le_div_iff₀ hposQ] at hgrown
    have : (rss.toNat : ℚ) ≤ after.toNat := by linarith
    exact UInt64.le_iff_toNat_le.mpr (by exact_mod_cast this)
  simp only [List.map_append, List.map_cons, List.map_nil, List.pairwise_append, List.pairwise_cons,
    List.mem_append, List.mem_cons, List.mem_map] at hmono
  have hpre : ∀ t ∈ pre, t.now ≤ base.now := fun t ht =>
    hmono.1.2.2 t.now ⟨t, ht, rfl⟩ base.now (.inl rfl)
  have hlast : base.now ≤ last.now := hmono.2.2 base.now (.inr (.inl rfl)) last.now (.inl rfl)
  have hmidLast : ∀ t ∈ mid, t.now ≤ last.now := fun t ht =>
    hmono.2.2 t.now (.inr (.inr ⟨t, ht, rfl⟩)) last.now (.inl rfl)
  rw [growthReported_run pre hobs hafter, hreadings]
  refine crosses_buffer_iff ((timesAtMost_run hpre).drainStale (pid, st)) hlast hbase ?_ hpos hle
  intro x hx
  obtain ⟨t, ht, hxt⟩ := List.mem_flatMap.mp hx
  have hnow : x.1 = t.now := by
    rw [Tick.rssReadings] at hxt
    split at hxt
    · rw [List.eq_of_mem_replicate hxt]
    · cases hxt
  apply Bool.eq_false_iff.mpr
  intro hin
  have := ((inWindow_iff (hnow ▸ hmidLast t ht)).mp hin).1
  have := hmid t ht
  rw [← hnow] at this
  omega

/-- One process of a given size, seen at a given time. -/
def sizeTick (secs : Nat) (rss : UInt64) : Tick := mockTick (.ofNat secs) [snap 1 0 100 0 rss]

theorem growth_detected_two_ticks :
    ((afterRun [sizeTick 0 1000000]).refreshAt (sizeTick 3600 1700000)).1.timeline =
        ((afterRun [sizeTick 0 1000000]).timeline ++
          (afterRun [sizeTick 0 1000000]).appended (sizeTick 3600 1700000)).rtake 1000 ∧
      GrowthReported (1, 100) ((afterRun [sizeTick 0 1000000]).appended (sizeTick 3600 1700000)) := by
  have hobs : ∀ t ∈ [sizeTick 0 1000000] ++ [sizeTick 3600 1700000], t.observes (1, 100) := by
    simpa using ⟨rfl, rfl⟩
  have hgrown : (1 / 2 : ℚ) ≤ (((1700000 : UInt64).toNat : ℚ) - (1000000 : UInt64).toNat) /
      (1000000 : UInt64).toNat := by
    rw [show (1700000 : UInt64).toNat = 1700000 from rfl, show (1000000 : UInt64).toNat = 1000000 from rfl]
    norm_num
  have hrounded : 3 * toDouble (1000000 : UInt64).toNat ≤ 2 * toDouble (1700000 : UInt64).toNat := by
    rw [toDouble_natCast (by decide), toDouble_natCast (by decide),
      show (1700000 : UInt64).toNat = 1700000 from rfl, show (1000000 : UInt64).toNat = 1000000 from rfl]
    norm_num
  obtain ⟨htimeline, hiff⟩ := growth_detected_iff [] [] _ _ (1, 100) (by decide) hobs (by decide) (by simp) rfl rfl
    (by decide) hgrown
  exact ⟨htimeline, hiff.mpr ⟨by decide, by decide, hrounded⟩⟩

theorem sizeTick_toInt {secs : Nat} (h : secs < 2 ^ 63) (rss : UInt64) :
    (sizeTick secs rss).now.toInt = secs := Int64.toInt_ofNat_of_lt h

/-- One hour of calls five seconds apart: memory doubles, and the last call adds no report of it to the timeline. -/
theorem growth_missed_at_daemon_interval :
    let mid := (List.range 719).map fun i => sizeTick (5 * (i + 1)) 1000
    let s := afterRun (sizeTick 0 1000 :: mid)
    (∀ t ∈ sizeTick 0 1000 :: mid ++ [sizeTick 3600 2000], t.observes (1, 100)) ∧
      (s.refreshAt (sizeTick 3600 2000)).1.timeline =
        (s.timeline ++ s.appended (sizeTick 3600 2000)).rtake 1000 ∧
      ¬ GrowthReported (1, 100) (s.appended (sizeTick 3600 2000)) := by
  intro mid s
  have hobs : ∀ t ∈ sizeTick 0 1000 :: mid ++ [sizeTick 3600 2000], t.observes (1, 100) := by
    intro t ht
    simp only [mid, List.cons_append, List.mem_cons, List.mem_append, List.mem_map,
      List.not_mem_nil, or_false] at ht
    rcases ht with rfl | ⟨i, -, rfl⟩ | rfl <;> rfl
  refine ⟨hobs, timeline_appended _ _, ?_⟩
  have hreadings : mid.flatMap (·.rssReadings 1) =
      (List.range 719).map fun i => ((sizeTick (5 * (i + 1)) 1000).now, 1000) := by
    rw [List.flatMap_map]
    exact List.flatMap_pure_eq_map _ _
  have hafter : ((sizeTick 3600 2000).reading 1).map (·.memory.rss) = some 2000 := rfl
  have hrun := growthReported_run [] hobs hafter
  rw [List.nil_append] at hrun
  rw [hrun, hreadings, rtake_append_of_le _ _ (by simp)]
  refine not_crosses_of_forall fun x hx => Bool.eq_false_iff.mpr fun hin => ?_
  obtain ⟨i, hi, rfl⟩ := List.mem_map.mp (mem_of_mem_rtake hx)
  have hsecs : 5 * (i + 1) ≤ 3600 := by
    have := List.mem_range.mp hi
    omega
  have htime := sizeTick_toInt (show 5 * (i + 1) < 2 ^ 63 by omega) 1000
  have hnow := sizeTick_toInt (show 3600 < 2 ^ 63 by decide) 2000
  have hle : (sizeTick (5 * (i + 1)) 1000).now ≤ (sizeTick 3600 2000).now :=
    Int64.le_iff_toInt_le.mpr (by omega)
  have hage : 3600 ≤ (sizeTick 3600 2000).now.toInt - (sizeTick (5 * (i + 1)) 1000).now.toInt :=
    ((inWindow_iff (x := ((sizeTick (5 * (i + 1)) 1000).now, 1000)) hle).mp hin).1
  omega

end ProcessExplorer.Intelligence
