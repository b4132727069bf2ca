import ProcessExplorer.Library.Words
import ProcessExplorer.Telemetry.Linux.Adapter

/-! The container of a process, as the path of its cgroup names it, and what the tool of the container runtime
adds. -/
namespace ProcessExplorer.Telemetry.Linux
open Library Model

inductive ContainerRuntime where
  | docker | podman | containerd
  deriving DecidableEq

structure ContainerInfo where
  runtime : ContainerRuntime
  id : String
  name : Option String
  image : Option String
  status : Option String
  deriving DecidableEq

/-- What a program prints when it is run with some arguments, if it can be run and succeeds. -/
abbrev Shell := String → List String → Except ErrorKind Text

/-- A text with a character that is not ASCII has no 64 bytes that are digits, so characters count. -/
def isContainerId (s : Text) : Bool := s.length = 64 && s.all fun c => (Text.hexValue c).isSome

/-- What the name of a scope starts with. -/
def ContainerRuntime.stem : ContainerRuntime → String
  | .docker => "docker-"
  | .podman => "libpod-"
  | .containerd => "cri-containerd-"

def stripScope (segment : Text) (stem : String) : Option Text := do
  let id ← Text.stripSuffix ".scope".toList (← Text.stripPrefix stem.toList segment)
  if isContainerId id then some id else none

/-- The container that a segment of the path is the scope of. -/
def scopeOwner (segment : Text) : Option (ContainerRuntime × Text) :=
  [ContainerRuntime.docker, .podman, .containerd].findSome? fun runtime =>
    (stripScope segment runtime.stem).map (runtime, ·)

def detectContainer (cgroupPath : Text) : Option (ContainerRuntime × Text) :=
  match (Text.stripPrefix "/docker/".toList cgroupPath).filter isContainerId with
  | some id => some (.docker, id)
  | none => (cgroupPath.splitOn '/').findSome? scopeOwner

/-- An empty field is one that is not known. -/
def knownField (field : Text) : Option String := if field = [] then none else some (String.ofList field)

def inspectArgs (id : Text) : List String :=
  ["inspect", "--format", "\x7b\x7b.Name\x7d\x7d|\x7b\x7b.Config.Image\x7d\x7d|\x7b\x7b.State.Status\x7d\x7d",
    String.ofList id]

def inspectVia (shell : Shell) (program : String) (id : Text) (runtime : ContainerRuntime) : Option ContainerInfo :=
  match shell program (inspectArgs id) with
  | .error _ => none
  | .ok stdout =>
    match Text.splitn 3 '|' (Text.trim stdout) with
    | [] => none
    | name :: others => some {
        runtime
        id := String.ofList id
        name := knownField (Text.trimStartMatches ['/'] name)
        image := knownField (others[0]?.getD [])
        status := knownField (others[1]?.getD []) }

/-- There is no one tool that could tell more of a container of containerd. -/
def inspectContainer (shell : Shell) (runtime : ContainerRuntime) (id : Text) : Option ContainerInfo :=
  match runtime with
  | .docker => inspectVia shell "docker" id .docker
  | .podman => inspectVia shell "podman" id .podman
  | .containerd => none

def containerInfo (root sysRoot : String) (shell : Shell) (pid : Pid) : Procfs (Option ContainerInfo) := do
  match ← readCgroup root sysRoot pid with
  | none => pure none
  | some cgroup =>
    match detectContainer cgroup.path.toList with
    | none => pure none
    | some (runtime, id) =>
      pure (some ((inspectContainer shell runtime id).getD ⟨runtime, String.ofList id, none, none, none⟩))

namespace LinuxAdapter
variable (adapter : LinuxAdapter) (pid : Pid)

def cgroup : Procfs (Option CgroupInfo) := readCgroup adapter.root adapter.sysRoot pid

def containerInfo (shell : Shell) : Procfs (Option ContainerInfo) :=
  Linux.containerInfo adapter.root adapter.sysRoot shell pid

end LinuxAdapter

/-- The scope that a runtime makes for a container. -/
def scopeName (runtime : ContainerRuntime) (id : Text) : Text := runtime.stem.toList ++ (id ++ ".scope".toList)

/-- The segments of a path up to this one have no scope of a container among them. -/
def FirstScope (cgroupPath : Text) (runtime : ContainerRuntime) (id : Text) : Prop :=
  ∃ before after, cgroupPath.splitOn '/' = before ++ scopeName runtime id :: after ∧
    ∀ segment ∈ before, ∀ runtime' id', isContainerId id' = true → segment ≠ scopeName runtime' id'

/-- The path names a container: docker's own directory at the top, or the outermost scope. -/
def NamesContainer (cgroupPath : Text) (runtime : ContainerRuntime) (id : Text) : Prop :=
  isContainerId id = true ∧
    ((runtime = .docker ∧ cgroupPath = "/docker/".toList ++ id) ∨ FirstScope cgroupPath runtime id)

section Scopes
variable {segment id : Text} {runtime : ContainerRuntime}

theorem stripScope_eq_some_iff {stem : String} :
    stripScope segment stem = some id ↔ isContainerId id = true ∧ segment = stem.toList ++ (id ++ ".scope".toList) := by
  simp only [stripScope, Option.bind_eq_bind, Option.bind_eq_some_iff, Text.stripPrefix_eq_some_iff,
    Text.stripSuffix_eq_some_iff, Option.ite_none_right_eq_some, Option.some.injEq]
  constructor
  · rintro ⟨_, rfl, _, rfl, hid, rfl⟩
    exact ⟨hid, rfl⟩
  · rintro ⟨hid, rfl⟩
    exact ⟨_, rfl, _, rfl, hid, rfl⟩

/-- The stems differ in their first letters. -/
theorem scopeName_inj {runtime' : ContainerRuntime} {id' : Text} (h : scopeName runtime id = scopeName runtime' id') :
    runtime = runtime' ∧ id = id' := by
  have hstem : runtime = runtime' := by
    have hfirst := congrArg List.head? h
    revert hfirst
    cases runtime <;> cases runtime' <;> simp [scopeName, ContainerRuntime.stem]
  subst hstem
  exact ⟨rfl, List.append_cancel_right (List.append_cancel_left h)⟩

theorem scopeOwner_eq_some_iff :
    scopeOwner segment = some (runtime, id) ↔ isContainerId id = true ∧ segment = scopeName runtime id := by
  constructor
  · intro h
    obtain ⟨runtime', -, hscope⟩ := List.exists_of_findSome?_eq_some h
    obtain ⟨id', hstrip, hpair⟩ := Option.map_eq_some_iff.mp hscope
    obtain ⟨rfl, rfl⟩ := Prod.mk.inj hpair
    exact stripScope_eq_some_iff.mp hstrip
  · rintro ⟨hid, rfl⟩
    have hstrip (runtime' : ContainerRuntime) : (stripScope (scopeName runtime id) runtime'.stem).map (runtime', ·) =
        if runtime' = runtime then some (runtime, id) else none := by
      split
      · rename_i heq
        have hscope : stripScope (scopeName runtime id) runtime'.stem = some id := by
          rw [heq, stripScope_eq_some_iff]
          exact ⟨hid, rfl⟩
        rw [hscope, heq, Option.map_some]
      · rename_i hne
        rw [Option.map_eq_none_iff, Option.eq_none_iff_forall_ne_some]
        intro id' hsome
        exact hne (scopeName_inj (stripScope_eq_some_iff.mp hsome).2).1.symm
    simp only [scopeOwner, hstrip]
    cases runtime <;> rfl

theorem scopeOwner_eq_none_iff : scopeOwner segment = none ↔
    ∀ runtime id, isContainerId id = true → segment ≠ scopeName runtime id := by
  rw [Option.eq_none_iff_forall_ne_some]
  constructor
  · rintro h runtime id hid rfl
    exact h (runtime, id) (scopeOwner_eq_some_iff.mpr ⟨hid, rfl⟩)
  · rintro h ⟨runtime, id⟩ hsome
    obtain ⟨hid, heq⟩ := scopeOwner_eq_some_iff.mp hsome
    exact h runtime id hid heq

theorem findSome?_scopeOwner_iff {cgroupPath : Text} :
    (cgroupPath.splitOn '/').findSome? scopeOwner = some (runtime, id) ↔
      isContainerId id = true ∧ FirstScope cgroupPath runtime id := by
  simp only [List.findSome?_eq_some_iff, scopeOwner_eq_some_iff, scopeOwner_eq_none_iff, FirstScope]
  constructor
  · rintro ⟨before, _, after, hsplit, ⟨hid, rfl⟩, hbefore⟩
    exact ⟨hid, before, after, hsplit, hbefore⟩
  · rintro ⟨hid, before, after, hsplit, hbefore⟩
    exact ⟨before, _, after, hsplit, ⟨hid, rfl⟩, hbefore⟩

/-- Every segment of docker's own directory has no scope's ending. -/
theorem not_firstScope_of_docker (hid : isContainerId id = true) {runtime' : ContainerRuntime} {id' : Text} :
    ¬ FirstScope ("/docker/".toList ++ id) runtime' id' := by
  rintro ⟨before, after, hsplit, -⟩
  have hhex : ∀ c ∈ id, (Text.hexValue c).isSome := by
    rw [isContainerId, Bool.and_eq_true, List.all_eq_true] at hid
    exact hid.2
  have hslash : '/' ∉ id := fun hmem => by cases hhex _ hmem
  have hsegments : ("/docker/".toList ++ id).splitOn '/' = [[], "docker".toList, id] := by
    have hpath : "/docker/".toList ++ id = [] ++ '/' :: ("docker".toList ++ '/' :: id) := rfl
    rw [hpath, List.splitOn_append_cons_self_of_not_mem (by decide),
      List.splitOn_append_cons_self_of_not_mem (by decide), List.splitOn_eq_singleton hslash]
  have hmem : scopeName runtime' id' ∈ [[], "docker".toList, id] := by
    rw [← hsegments, hsplit]
    simp
  have hdot : '.' ∈ scopeName runtime' id' := by simp [scopeName]
  simp only [List.mem_cons, List.not_mem_nil, or_false] at hmem
  rcases hmem with hmem | hmem | hmem
  · rw [hmem] at hdot
    cases hdot
  · rw [hmem] at hdot
    exact absurd hdot (by decide)
  · rw [hmem] at hdot
    cases hhex _ hdot

theorem detectContainer_eq_some_iff {cgroupPath : Text} :
    detectContainer cgroupPath = some (runtime, id) ↔ NamesContainer cgroupPath runtime id := by
  rw [detectContainer, NamesContainer]
  cases hdocker : (Text.stripPrefix "/docker/".toList cgroupPath).filter isContainerId with
  | some id' =>
    obtain ⟨hstrip, hid'⟩ := Option.filter_eq_some_iff.mp hdocker
    obtain rfl := Text.stripPrefix_eq_some_iff.mp hstrip
    simp only [Option.some.injEq, Prod.mk.injEq, List.append_cancel_left_eq]
    constructor
    · rintro ⟨rfl, rfl⟩
      exact ⟨hid', .inl ⟨rfl, rfl⟩⟩
    · rintro ⟨-, ⟨rfl, rfl⟩ | hscope⟩
      · exact ⟨rfl, rfl⟩
      · exact absurd hscope (not_firstScope_of_docker hid')
  | none =>
    dsimp only
    rw [findSome?_scopeOwner_iff]
    refine and_congr_right fun hid => (or_iff_right ?_).symm
    rintro ⟨-, rfl⟩
    have hstrip : Text.stripPrefix "/docker/".toList ("/docker/".toList ++ id) = some id :=
      Text.stripPrefix_eq_some_iff.mpr rfl
    rw [hstrip, Option.filter_some, if_pos hid] at hdocker
    cases hdocker

end Scopes

example : detectContainer ("/kubepods.slice/cri-containerd-".toList ++ (List.replicate 64 'a' ++ ".scope".toList)) =
    some (.containerd, List.replicate 64 'a') := by decide +kernel

/-- What the tool of a runtime knows of a container. -/
structure Inspection where
  name : Text
  image : Text
  status : Text
  nameStart : ∀ c ∈ name.head?, Text.isWhitespace c = false
  nameBar : '|' ∉ name
  nameSlash : ¬ ['/'] <+: name
  imageBar : '|' ∉ image
  statusEnd : ∀ c ∈ status.getLast?, Text.isWhitespace c = false

namespace Inspection
variable (known : Inspection)

/-- docker puts a slash before the name, podman does not. -/
def printedName (slash : Bool) : Text := if slash then '/' :: known.name else known.name

/-- What stands in the one line, in the format that was asked for. -/
def fields (slash : Bool) : Text := known.printedName slash ++ '|' :: (known.image ++ '|' :: known.status)

def line (slash : Bool) : Text := known.fields slash ++ ['\n']

def info (runtime : ContainerRuntime) (id : Text) : ContainerInfo where
  runtime := runtime
  id := String.ofList id
  name := knownField known.name
  image := knownField known.image
  status := knownField known.status

theorem fields_start (slash : Bool) : ∃ c rest, known.fields slash = c :: rest ∧ Text.isWhitespace c = false := by
  have hstart := known.nameStart
  rw [fields, printedName]
  cases slash with
  | true => exact ⟨'/', _, rfl, rfl⟩
  | false =>
    cases hname : known.name with
    | nil => exact ⟨'|', _, rfl, rfl⟩
    | cons c rest =>
      rw [hname] at hstart
      exact ⟨c, _, rfl, hstart c rfl⟩

theorem fields_end (slash : Bool) : ∀ c ∈ (known.fields slash).getLast?, Text.isWhitespace c = false := by
  have hparts : known.fields slash = (known.printedName slash ++ '|' :: known.image) ++ '|' :: known.status := by
    simp [fields]
  rw [hparts, List.getLast?_append_of_ne_nil _ (List.cons_ne_nil _ _)]
  cases hstatus : known.status with
  | nil =>
    rintro _ ⟨⟩
    rfl
  | cons c rest =>
    rw [List.getLast?_cons_of_ne_nil (List.cons_ne_nil c rest), ← hstatus]
    exact known.statusEnd

theorem trim_line (slash : Bool) : Text.trim (known.line slash) = known.fields slash := by
  obtain ⟨c, rest, hfields, hc⟩ := known.fields_start slash
  have hstart : Text.trimStart (known.line slash) = known.line slash := by
    rw [line, hfields]
    exact List.dropWhile_cons_of_neg (by simp [hc])
  rw [Text.trim, hstart, line]
  exact Text.trimEnd_append (List.forall_mem_singleton.mpr rfl) (known.fields_end slash)

/-- The code takes a slash away where there is one. -/
theorem trimStartMatches_printedName (slash : Bool) :
    Text.trimStartMatches ['/'] (known.printedName slash) = known.name := by
  rw [printedName]
  cases slash with
  | true => exact Text.trimStartMatches_append (List.cons_ne_nil _ _) known.nameSlash
  | false => exact Text.trimStartMatches_of_not_prefix known.nameSlash

/-- What the tool prints is what is kept. -/
theorem inspectVia_line {shell : Shell} {program : String} {id : Text} {runtime : ContainerRuntime} {slash : Bool}
    (h : shell program (inspectArgs id) = .ok (known.line slash)) :
    inspectVia shell program id runtime = some (known.info runtime id) := by
  have hname : '|' ∉ known.printedName slash := by
    rw [printedName]
    split
    · exact List.not_mem_cons_of_ne_of_not_mem (by decide) known.nameBar
    · exact known.nameBar
  have hsplit : Text.splitn 3 '|' (known.fields slash) = [known.printedName slash, known.image, known.status] := by
    rw [fields, Text.splitn_append_cons hname, Text.splitn_append_cons known.imageBar, Text.splitn]
  rw [inspectVia, h]
  dsimp only
  rw [known.trim_line, hsplit]
  simp only [known.trimStartMatches_printedName]
  rfl

end Inspection

/-- The program that is asked about a container, where there is one. -/
def ContainerRuntime.tool : ContainerRuntime → Option String
  | .docker => some "docker"
  | .podman => some "podman"
  | .containerd => none

section Attribution
variable {shell : Shell} {runtime : ContainerRuntime} {id : Text}

theorem inspectContainer_keeps {info : ContainerInfo} (h : inspectContainer shell runtime id = some info) :
    info.runtime = runtime ∧ info.id = String.ofList id := by
  have hvia {program : String} {r : ContainerRuntime} (h : inspectVia shell program id r = some info) :
      info.runtime = r ∧ info.id = String.ofList id := by
    rw [inspectVia] at h
    split at h
    · cases h
    · split at h
      · cases h
      · obtain rfl := Option.some.inj h
        exact ⟨rfl, rfl⟩
  cases runtime with
  | docker => exact hvia h
  | podman => exact hvia h
  | containerd => cases h

theorem inspectContainer_line {program : String} {known : Inspection} (htool : program ∈ runtime.tool)
    {slash : Bool} (h : shell program (inspectArgs id) = .ok (known.line slash)) :
    inspectContainer shell runtime id = some (known.info runtime id) := by
  cases runtime with
  | docker =>
    obtain rfl := Option.some.inj htool
    exact known.inspectVia_line h
  | podman =>
    obtain rfl := Option.some.inj htool
    exact known.inspectVia_line h
  | containerd => cases htool

theorem inspectContainer_error
    (h : ∀ program ∈ runtime.tool, ∃ source, shell program (inspectArgs id) = .error source) :
    inspectContainer shell runtime id = none := by
  cases runtime with
  | docker =>
    obtain ⟨source, hsource⟩ := h "docker" rfl
    rw [inspectContainer, inspectVia, hsource]
  | podman =>
    obtain ⟨source, hsource⟩ := h "podman" rfl
    rw [inspectContainer, inspectVia, hsource]
  | containerd => rfl

variable {adapter : LinuxAdapter} {fs : FileSystem} {pid : Pid} {group : CgroupInfo}

/-- A container that the path names is reported, with more or less about it. -/
theorem containerInfo_of_names (hgroup : (adapter.cgroup pid).resultOn fs = .ok (some group))
    (hnames : NamesContainer group.path.toList runtime id) :
    (adapter.containerInfo pid shell).resultOn fs =
      .ok (some ((inspectContainer shell runtime id).getD ⟨runtime, String.ofList id, none, none, none⟩)) := by
  have hdetect := detectContainer_eq_some_iff.mpr hnames
  rw [LinuxAdapter.cgroup] at hgroup
  simp [LinuxAdapter.containerInfo, containerInfo, hgroup, hdetect]

/-- Nothing is reported that the path does not name. -/
theorem names_of_containerInfo {info : ContainerInfo}
    (h : (adapter.containerInfo pid shell).resultOn fs = .ok (some info)) :
    ∃ group runtime id, (adapter.cgroup pid).resultOn fs = .ok (some group) ∧
      NamesContainer group.path.toList runtime id ∧ info.runtime = runtime ∧ info.id = String.ofList id := by
  rw [LinuxAdapter.containerInfo, containerInfo, Procfs.resultOn_bind, bind_eq_ok_iff] at h
  obtain ⟨_ | group, hgroup, h⟩ := h
  · cases h
  · dsimp only at h
    cases hdetect : detectContainer group.path.toList with
    | none =>
      rw [hdetect] at h
      cases h
    | some owner =>
      obtain ⟨runtime, id⟩ := owner
      rw [hdetect] at h
      have hinfo : (inspectContainer shell runtime id).getD ⟨runtime, String.ofList id, none, none, none⟩ = info :=
        Option.some.inj (Except.ok.inj h)
      refine ⟨group, runtime, id, hgroup, detectContainer_eq_some_iff.mp hdetect, ?_⟩
      cases hinspect : inspectContainer shell runtime id with
      | none =>
        rw [hinspect] at hinfo
        exact hinfo ▸ ⟨rfl, rfl⟩
      | some known =>
        rw [hinspect] at hinfo
        exact hinfo ▸ inspectContainer_keeps hinspect

end Attribution

/-- Whatever the tools answer, a process is in a container exactly when the path of its cgroup names one; what a tool
prints is kept field by field, and without a tool there is only the id. -/
theorem container_attributed (adapter : LinuxAdapter) (fs : FileSystem) (shell : Shell) (pid : Pid)
    (runtime : ContainerRuntime) (id : Text) :
    ((∃ info, (adapter.containerInfo pid shell).resultOn fs = .ok (some info) ∧ info.runtime = runtime ∧
        info.id = String.ofList id) ↔
      ∃ group, (adapter.cgroup pid).resultOn fs = .ok (some group) ∧ NamesContainer group.path.toList runtime id) ∧
    ∀ info, (adapter.containerInfo pid shell).resultOn fs = .ok (some info) → info.runtime = runtime →
      info.id = String.ofList id →
        (∀ program ∈ runtime.tool, ∀ (known : Inspection) (slash : Bool),
          shell program (inspectArgs id) = .ok (known.line slash) → info = known.info runtime id) ∧
        ((∀ program ∈ runtime.tool, ∃ source, shell program (inspectArgs id) = .error source) →
          info = ⟨runtime, String.ofList id, none, none, none⟩) := by
  have hnamed (info : ContainerInfo) (hinfo : (adapter.containerInfo pid shell).resultOn fs = .ok (some info))
      (hruntime : info.runtime = runtime) (hid : info.id = String.ofList id) :
      ∃ group, (adapter.cgroup pid).resultOn fs = .ok (some group) ∧ NamesContainer group.path.toList runtime id := by
    obtain ⟨group, runtime', id', hgroup, hnames, hruntime', hid'⟩ := names_of_containerInfo hinfo
    obtain rfl : runtime' = runtime := hruntime'.symm.trans hruntime
    obtain rfl : id' = id := String.ofList_injective (hid'.symm.trans hid)
    exact ⟨group, hgroup, hnames⟩
  refine ⟨⟨?_, ?_⟩, fun info hinfo hruntime hid => ?_⟩
  · rintro ⟨info, hinfo, hruntime, hid⟩
    exact hnamed info hinfo hruntime hid
  · rintro ⟨group, hgroup, hnames⟩
    refine ⟨_, containerInfo_of_names hgroup hnames, ?_⟩
    cases hinspect : inspectContainer shell runtime id with
    | none => exact ⟨rfl, rfl⟩
    | some known => exact inspectContainer_keeps hinspect
  · obtain ⟨group, hgroup, hnames⟩ := hnamed info hinfo hruntime hid
    have hinfo' : (inspectContainer shell runtime id).getD ⟨runtime, String.ofList id, none, none, none⟩ = info :=
      Option.some.inj (Except.ok.inj ((containerInfo_of_names hgroup hnames).symm.trans hinfo))
    constructor
    · intro program htool known slash hline
      rw [inspectContainer_line htool hline, Option.getD_some] at hinfo'
      exact hinfo'.symm
    · intro hfails
      rw [inspectContainer_error hfails, Option.getD_none] at hinfo'
      exact hinfo'.symm

end ProcessExplorer.Telemetry.Linux
