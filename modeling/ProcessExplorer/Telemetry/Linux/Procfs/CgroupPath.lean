import ProcessExplorer.Library.SortedSet
import ProcessExplorer.Telemetry.Linux.Procfs.Cgroup

/-! Which line of a v1 cgroup file gives the path. A name= entry is left out of the controllers, but the line
it stands on still counts as one that names a controller. -/
namespace ProcessExplorer.Telemetry.Linux
open Library Model

def IsResource (controller : Text) : Prop := controller ≠ [] ∧ ¬ "name=".toList <+: controller

instance (controller : Text) : Decidable (IsResource controller) := inferInstanceAs (Decidable (_ ∧ _))

def CgroupLine.NamesResource (line : CgroupLine) : Prop := ∃ c ∈ line.controllers, IsResource c

instance (line : CgroupLine) : Decidable line.NamesResource :=
  inferInstanceAs (Decidable (∃ c ∈ line.controllers, IsResource c))

/-- Version 1, the path of the first line with a resource controller, and all of these controllers, each
once and in order. -/
structure IsFlattened (lines : List CgroupLine) (info : CgroupInfo) : Prop where
  version : info.version = .v1
  path : ∀ line ∈ lines.find? (·.NamesResource), info.path = String.ofList line.path
  sorted : info.controllers.Pairwise fun a b => Text.le a.toList b.toList ∧ a ≠ b
  named : ∀ c, String.ofList c ∈ info.controllers ↔ IsResource c ∧ ∃ line ∈ lines, c ∈ line.controllers

/-- The empty entries have been dropped. -/
theorem controllers_ne_nil {content : Text} {line : CgroupLine} (h : line ∈ parseCgroupLines content) :
    ∀ c ∈ line.controllers, c ≠ [] := by
  obtain ⟨text, -, hparsed⟩ := List.mem_filterMap.mp h
  split at hparsed
  · obtain ⟨id, -, rfl⟩ := Option.map_eq_some_iff.mp hparsed
    intro c hc
    exact of_decide_eq_true (List.mem_filter.mp hc).2
  · cases hparsed

section Flatten
variable {lines : List CgroupLine} (hne : ∀ line ∈ lines, ∀ c ∈ line.controllers, c ≠ [])

theorem sorted_flattenV1 (lines : List CgroupLine) :
    (flattenV1 lines).controllers.Pairwise fun a b => Text.le a.toList b.toList ∧ a ≠ b := by
  refine List.pairwise_map.mpr ?_
  refine (pairwise_destutter_ne Text.le_trans' Text.le_antisymm'
    (List.pairwise_mergeSort Text.le_trans' Text.le_total' _)).imp ?_
  rintro a b ⟨hle, hab⟩
  exact ⟨by simpa using hle, fun h => hab (String.ofList_injective h)⟩

include hne in
theorem mem_flattenV1 (c : Text) :
    String.ofList c ∈ (flattenV1 lines).controllers ↔ IsResource c ∧ ∃ line ∈ lines, c ∈ line.controllers := by
  rw [flattenV1, List.mem_map_of_injective fun _ _ => String.ofList_injective, mem_destutter_ne, List.mem_mergeSort,
    List.mem_filter, List.mem_flatMap, and_comm, decide_eq_true_iff]
  refine and_congr_left ?_
  rintro ⟨line, hline, hc⟩
  exact (and_iff_right (hne line hline c hc)).symm

include hne in
/-- The line that gives the path is the first with any entry, not the first with a resource controller. -/
theorem isFlattened_flattenV1_iff (hnames : ∃ line ∈ lines, line.NamesResource) :
    IsFlattened lines (flattenV1 lines) ↔
      (lines.find? fun line => line.controllers ≠ []).map CgroupLine.path =
        (lines.find? (·.NamesResource)).map CgroupLine.path := by
  obtain ⟨line, hmem, hnamed⟩ := hnames
  obtain ⟨first, hfirst⟩ : ∃ first, lines.find? (·.NamesResource) = some first :=
    Option.isSome_iff_exists.mp (List.find?_isSome.mpr ⟨line, hmem, decide_eq_true hnamed⟩)
  obtain ⟨chosen, hchosen⟩ : ∃ chosen, lines.find? (fun line => line.controllers ≠ []) = some chosen := by
    obtain ⟨c, hc, -⟩ := hnamed
    exact Option.isSome_iff_exists.mp
      (List.find?_isSome.mpr ⟨line, hmem, decide_eq_true (List.ne_nil_of_mem hc)⟩)
  have hpath : (flattenV1 lines).path = String.ofList chosen.path := by
    change String.ofList (((lines.find? (fun line => line.controllers ≠ []) <|> lines.head?).map
      CgroupLine.path).getD []) = _
    rw [hchosen]
    rfl
  rw [hfirst, hchosen, Option.map_some, Option.map_some, Option.some_inj]
  constructor
  · intro h
    exact String.ofList_injective (hpath.symm.trans (h.path first hfirst))
  · intro h
    refine ⟨rfl, ?_, sorted_flattenV1 lines, mem_flattenV1 hne⟩
    intro line hline
    obtain rfl := Option.some.inj (hfirst.symm.trans hline)
    rw [hpath, h]

end Flatten

/-- With a resource controller on some line, the flattened v1 hierarchies are returned exactly where there is
more than a line of hierarchy 0 and no line with name= entries only, of another path, comes before. -/
theorem readCgroup_flattened_iff (fs : FileSystem) (root sysRoot : String) (pid : Pid) (content : Text)
    (htext : fs.text (procPath root pid "cgroup") = .ok content)
    (hnames : ∃ line ∈ parseCgroupLines content, line.NamesResource) :
    (∃ info, (readCgroup root sysRoot pid).resultOn fs = .ok (some info) ∧
      IsFlattened (parseCgroupLines content) info) ↔
      (∀ line, parseCgroupLines content = [line] → line.hierarchyId ≠ 0) ∧
      ((parseCgroupLines content).find? fun line => line.controllers ≠ []).map CgroupLine.path =
        ((parseCgroupLines content).find? (·.NamesResource)).map CgroupLine.path := by
  have hne := fun line (hline : line ∈ parseCgroupLines content) => controllers_ne_nil hline
  rw [← isFlattened_flattenV1_iff hne hnames]
  have hread : (readToStringOptional (procPath root pid "cgroup")).resultOn fs = .ok (some content) :=
    (resultOn_readToStringOptional_ok_iff fs _ _).mpr (.inr ⟨content, htext, rfl⟩)
  rw [readCgroup, Procfs.resultOn_bind, hread, ok_bind]
  rcases hlines : parseCgroupLines content with _ | ⟨line, _ | ⟨line', rest⟩⟩
  · rw [hlines] at hnames
    simp at hnames
  · by_cases hzero : line.hierarchyId = 0
    · -- The one line is taken for a v2 cgroup.
      have hv2 (info : CgroupInfo) (h : info.version = .v2) : ¬ IsFlattened [line] info := by
        intro hflat
        cases h.symm.trans hflat.version
      simp [hlines, hzero, readV2Controllers, hv2]
    · simp [hlines, hzero]
  · simp [hlines]

theorem readCgroup_flattened_of_comounted :
    ∃ info, (readCgroup "/proc" "/sys/fs/cgroup" 4242).resultOn
        (.holding "2:cpuacct,cpu:/a\n1:name=systemd:/b\n0::/c\n".toUTF8) = .ok (some info) ∧
      IsFlattened (parseCgroupLines "2:cpuacct,cpu:/a\n1:name=systemd:/b\n0::/c\n".toList) info := by
  refine (readCgroup_flattened_iff (.holding "2:cpuacct,cpu:/a\n1:name=systemd:/b\n0::/c\n".toUTF8) "/proc"
    "/sys/fs/cgroup" 4242 _ (by decide +kernel) (by decide +kernel)).mpr ⟨?_, by decide +kernel⟩
  intro line hline
  have hlength : (parseCgroupLines "2:cpuacct,cpu:/a\n1:name=systemd:/b\n0::/c\n".toList).length = 3 := by
    decide +kernel
  rw [hline] at hlength
  cases hlength

/-- The line of systemd comes first and gives the path of the process. -/
theorem readCgroup_path_of_named_hierarchy :
    let content := "1:name=systemd:/foo\n2:cpu:/bar\n"
    let info : CgroupInfo := { version := .v1, path := "/foo", controllers := ["cpu"] }
    (readCgroup "/proc" "/sys/fs/cgroup" 4242).resultOn (.holding content.toUTF8) = .ok (some info) ∧
      ¬ IsFlattened (parseCgroupLines content.toList) info := by
  intro content info
  have hfirst : ((parseCgroupLines content.toList).find? (·.NamesResource)).map CgroupLine.path =
      some "/bar".toList := by decide +kernel
  refine ⟨by decide +kernel, fun h => ?_⟩
  obtain ⟨line, hline, hpath⟩ := Option.map_eq_some_iff.mp hfirst
  have := h.path line hline
  rw [hpath] at this
  exact absurd this (by decide +kernel)

end ProcessExplorer.Telemetry.Linux
