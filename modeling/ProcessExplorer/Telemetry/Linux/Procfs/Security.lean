import Mathlib.Data.Nat.Bitwise
import ProcessExplorer.Library.Words
import ProcessExplorer.Telemetry.Linux.Procfs.Process

/-! The security fields of /proc/[pid]/status, and the names of the capabilities in a mask. -/
namespace ProcessExplorer.Telemetry.Linux
open Library Model

structure SecurityContext where
  uid : UInt32
  gid : UInt32
  euid : UInt32
  egid : UInt32
  capabilitiesEffective : List String
  capabilitiesBounding : List String
  lsmLabel : Option String
  seccompMode : UInt8
  deriving DecidableEq

/-- Indexed by bit number. -/
def capabilityNames : List String :=
  ["CAP_CHOWN", "CAP_DAC_OVERRIDE", "CAP_DAC_READ_SEARCH", "CAP_FOWNER", "CAP_FSETID", "CAP_KILL", "CAP_SETGID",
    "CAP_SETUID", "CAP_SETPCAP", "CAP_LINUX_IMMUTABLE", "CAP_NET_BIND_SERVICE", "CAP_NET_BROADCAST",
    "CAP_NET_ADMIN", "CAP_NET_RAW", "CAP_IPC_LOCK", "CAP_IPC_OWNER", "CAP_SYS_MODULE", "CAP_SYS_RAWIO",
    "CAP_SYS_CHROOT", "CAP_SYS_PTRACE", "CAP_SYS_PACCT", "CAP_SYS_ADMIN", "CAP_SYS_BOOT", "CAP_SYS_NICE",
    "CAP_SYS_RESOURCE", "CAP_SYS_TIME", "CAP_SYS_TTY_CONFIG", "CAP_MKNOD", "CAP_LEASE", "CAP_AUDIT_WRITE",
    "CAP_AUDIT_CONTROL", "CAP_SETFCAP", "CAP_MAC_OVERRIDE", "CAP_MAC_ADMIN", "CAP_SYSLOG", "CAP_WAKE_ALARM",
    "CAP_BLOCK_SUSPEND", "CAP_AUDIT_READ", "CAP_PERFMON", "CAP_BPF", "CAP_CHECKPOINT_RESTORE"]

/-- A bit beyond the table is not dropped. -/
def capabilityLabel (bit : ℕ) : String :=
  match capabilityNames[bit]? with
  | some name => name
  | none => "CAP_UNKNOWN_" ++ toString bit

def decodeCapabilities (mask : UInt64) : List String :=
  (List.range 64).filterMap fun bit =>
    if mask &&& (1 <<< UInt64.ofNat bit) = 0 then none else some (capabilityLabel bit)

def hexStatusValue (content : Text) (key path : String) : Result UInt64 :=
  match (Text.lines content).find? (key.toList <+: ·) with
  | none => .error (parseErr path ("missing '" ++ key ++ "' line"))
  | some line => match Text.splitWhitespace (Text.trimStartMatches key.toList line) with
    | [] => .error (parseErr path ("'" ++ key ++ "' line has no value"))
    | value :: _ => match Text.parseHexU64 value with
      | some n => .ok n
      | none => .error (parseErr path ("'" ++ key ++ "' value is not hex"))

/-- Like the first value, but any of those on the line. -/
def nthStatusValue (content : Text) (key : String) (index : ℕ) (path : String) : Result UInt32 :=
  match (Text.lines content).find? (key.toList <+: ·) with
  | none => .error (parseErr path ("missing '" ++ key ++ "' line"))
  | some line => match (Text.splitWhitespace (Text.trimStartMatches key.toList line))[index]? with
    | none => .error (parseErr path ("'" ++ key ++ "' line missing value at index " ++ toString index))
    | some value => match Text.parseU32 value with
      | some n => .ok n
      | none => .error (parseErr path ("'" ++ key ++ "' value is not an integer"))

section Read
variable (root : String) (pid : Pid)

/-- Any failure is a label that is not there. -/
def readLsmLabel : Procfs (Option String) := do
  let read ← Procfs.attempt (readToStringOptional (join (procPath root pid "attr") "current"))
  pure do
    let content ← read.toOption.join
    let trimmed := Text.trim ((Text.trim content).rdropWhile (· = '\x00'))
    if trimmed = [] then none else some (String.ofList trimmed)

def readSecurity : Procfs SecurityContext := do
  let path := procPath root pid "status"
  let content ← readToString path
  let uid ← Procfs.liftExcept (firstStatusValue content "Uid:" path)
  let gid ← Procfs.liftExcept (firstStatusValue content "Gid:" path)
  let euid ← Procfs.liftExcept (nthStatusValue content "Uid:" 1 path)
  let egid ← Procfs.liftExcept (nthStatusValue content "Gid:" 1 path)
  let capEff ← Procfs.liftExcept (hexStatusValue content "CapEff:" path)
  let capBnd ← Procfs.liftExcept (hexStatusValue content "CapBnd:" path)
  let seccompMode ← Procfs.liftExcept (firstStatusValue content "Seccomp:" path)
  let lsmLabel ← readLsmLabel root pid
  pure {
    uid, gid, euid, egid, lsmLabel
    capabilitiesEffective := decodeCapabilities capEff
    capabilitiesBounding := decodeCapabilities capBnd
    seccompMode := seccompMode.toUInt8 }

end Read

/-- The first line with the key is the one that the kernel prints for the mask. -/
def ShowsMask (content : Text) (key : String) (mask : UInt64) : Prop :=
  ∃ before after, Text.lines content = before ++ (key.toList ++ '\t' :: Text.paddedHex 16 mask.toNat) :: after ∧
    ∀ line ∈ before, ¬ key.toList <+: line

/-- One label for each bit that is set, from the lowest bit up. -/
def LabelsBits (mask : UInt64) (labels : List String) : Prop :=
  ∃ bits : List ℕ, bits.Pairwise (· < ·) ∧ (∀ bit, bit ∈ bits ↔ mask.toNat.testBit bit) ∧
    labels = bits.map capabilityLabel

/-- The other lines that a security context is read from. -/
structure IdentityReadable (content : Text) (path : String) : Prop where
  uid : ∃ uid, firstStatusValue content "Uid:" path = .ok uid
  gid : ∃ gid, firstStatusValue content "Gid:" path = .ok gid
  euid : ∃ euid, nthStatusValue content "Uid:" 1 path = .ok euid
  egid : ∃ egid, nthStatusValue content "Gid:" 1 path = .ok egid
  capBnd : ∃ mask, hexStatusValue content "CapBnd:" path = .ok mask
  seccomp : ∃ mode, firstStatusValue content "Seccomp:" path = .ok mode

section Labels

theorem nodup_capabilityNames : capabilityNames.Nodup := by decide +kernel

theorem not_unknown_prefix : ∀ name ∈ capabilityNames, ¬ "CAP_UNKNOWN_".toList <+: name.toList := by decide +kernel

theorem unknown_ne {name : String} (hname : name ∈ capabilityNames) (suffix : String) :
    name ≠ "CAP_UNKNOWN_" ++ suffix := by
  rintro rfl
  refine not_unknown_prefix _ hname ?_
  rw [String.toList_append]
  exact List.prefix_append _ _

theorem unknown_injective {a b : ℕ} (h : "CAP_UNKNOWN_" ++ toString a = "CAP_UNKNOWN_" ++ toString b) : a = b := by
  have hdigits := congrArg String.toList h
  rw [String.toList_append, String.toList_append, List.append_cancel_left_eq, Nat.toString_eq_repr,
    Nat.toString_eq_repr, Nat.toList_repr, Nat.toList_repr] at hdigits
  exact Text.toDigits_inj hdigits

/-- The names of the table are distinct, and none is like a label beyond the table. -/
theorem capabilityLabel_injective : Function.Injective capabilityLabel := by
  intro a b h
  rw [capabilityLabel.eq_def, capabilityLabel.eq_def] at h
  cases ha : capabilityNames[a]? with
  | some name =>
    cases hb : capabilityNames[b]? with
    | some other =>
      obtain ⟨hlt, -⟩ := List.getElem?_eq_some_iff.mp ha
      rw [ha, hb] at h
      exact (List.getElem?_inj hlt nodup_capabilityNames).mp (ha.trans ((congrArg some h).trans hb.symm))
    | none =>
      rw [ha, hb] at h
      exact absurd h (unknown_ne (List.mem_of_getElem? ha) _)
  | none =>
    cases hb : capabilityNames[b]? with
    | some other =>
      rw [ha, hb] at h
      exact absurd h.symm (unknown_ne (List.mem_of_getElem? hb) _)
    | none =>
      rw [ha, hb] at h
      exact unknown_injective h

end Labels

section Mask

theorem and_bit_eq_zero_iff (mask : UInt64) {bit : ℕ} (h : bit < 64) :
    mask &&& (1 <<< UInt64.ofNat bit) = 0 ↔ mask.toNat.testBit bit = false := by
  have hbit : (UInt64.ofNat bit).toNat % 64 = bit := by
    rw [UInt64.toNat_ofNat_of_lt' (h.trans (by decide)), Nat.mod_eq_of_lt h]
  have hpow : (1 <<< UInt64.ofNat bit : UInt64).toNat = 2 ^ bit := by
    rw [UInt64.toNat_shiftLeft, hbit, UInt64.toNat_one, Nat.one_shiftLeft,
      Nat.mod_eq_of_lt (Nat.pow_lt_pow_right (by decide) h)]
  rw [← UInt64.toNat_inj, UInt64.toNat_and, hpow, Nat.and_two_pow, UInt64.toNat_zero]
  cases mask.toNat.testBit bit <;> simp

theorem bit_lt {mask : UInt64} {bit : ℕ} (h : mask.toNat.testBit bit) : bit < 64 := by
  by_contra hge
  have hlt : mask.toNat < 2 ^ bit := mask.toNat_lt.trans_le (Nat.pow_le_pow_right (by decide) (Nat.not_lt.mp hge))
  rw [Nat.testBit_lt_two_pow hlt] at h
  cases h

theorem decodeCapabilities_eq (mask : UInt64) :
    decodeCapabilities mask = ((List.range 64).filter mask.toNat.testBit).map capabilityLabel := by
  rw [decodeCapabilities, ← List.filterMap_eq_map, List.filterMap_filter]
  apply List.filterMap_congr
  intro bit hbit
  simp only [and_bit_eq_zero_iff mask (List.mem_range.mp hbit)]
  cases mask.toNat.testBit bit <;> rfl

theorem labelsBits_decodeCapabilities (mask : UInt64) : LabelsBits mask (decodeCapabilities mask) := by
  refine ⟨_, List.pairwise_lt_range.filter _, fun bit => ?_, decodeCapabilities_eq mask⟩
  rw [List.mem_filter, List.mem_range]
  exact and_iff_right_of_imp bit_lt

example : decodeCapabilities 0x4000000000400 = ["CAP_NET_BIND_SERVICE", "CAP_UNKNOWN_50"] := by decide +kernel

/-- The labels tell which bits were set. -/
theorem LabelsBits.mask_eq {mask mask' : UInt64} {labels : List String} (h : LabelsBits mask labels)
    (h' : LabelsBits mask' labels) : mask = mask' := by
  obtain ⟨bits, -, hbits, rfl⟩ := h
  obtain ⟨bits', -, hbits', hlabels⟩ := h'
  obtain rfl := capabilityLabel_injective.list_map hlabels
  refine UInt64.toNat_inj.mp (Nat.eq_of_testBit_eq fun bit => ?_)
  rw [Bool.eq_iff_iff, ← hbits, hbits']

theorem hexStatusValue_of_showsMask {content : Text} {key : String} {mask : UInt64} (path : String)
    (h : ShowsMask content key mask) (hne : key.toList ≠ []) (htab : '\t' ∉ key.toList) :
    hexStatusValue content key path = .ok mask := by
  obtain ⟨before, after, hlines, hbefore⟩ := h
  have hfind : (Text.lines content).find? (key.toList <+: ·) =
      some (key.toList ++ '\t' :: Text.paddedHex 16 mask.toNat) := by
    rw [List.find?_eq_some_iff_append]
    exact ⟨by simp, before, after, hlines, by simpa using hbefore⟩
  have hstop : ¬ key.toList <+: '\t' :: Text.paddedHex 16 mask.toNat := by
    intro hprefix
    obtain ⟨c, rest, hkey⟩ := List.exists_cons_of_ne_nil hne
    rw [hkey, List.cons_prefix_cons] at hprefix
    exact htab (hkey ▸ hprefix.1 ▸ List.mem_cons_self)
  rw [hexStatusValue, hfind]
  dsimp only
  rw [Text.trimStartMatches_append hne hstop, Text.splitWhitespace_cons (by decide),
    Text.splitWhitespace_of_isWord (Text.isWord_paddedHex _ _)]
  dsimp only
  rw [Text.parseHexU64_paddedHex]

end Mask

section Context
variable (fs : FileSystem) (root : String) (pid : Pid)

/-- A label that cannot be read is none; it is never an error. -/
theorem exists_readLsmLabel : ∃ label, (readLsmLabel root pid).resultOn fs = .ok label := by
  simp [readLsmLabel]

variable {fs root pid} {content : Text} {mask : UInt64} {context : SecurityContext}
  (htext : fs.text (procPath root pid "status") = .ok content) (hmask : ShowsMask content "CapEff:" mask)
include htext hmask

/-- The line of the effective mask is never what makes the reading fail. -/
theorem readSecurity_ok_iff : (∃ context, (readSecurity root pid).resultOn fs = .ok context) ↔
    IdentityReadable content (procPath root pid "status") := by
  have hcapEff := hexStatusValue_of_showsMask (procPath root pid "status") hmask (by decide) (by decide)
  simp only [readSecurity, Procfs.resultOn_bind, resultOn_readToString, htext, Except.mapError, ok_bind,
    Procfs.resultOn_liftExcept, hcapEff, exists_bind_eq_ok, Procfs.resultOn_pure]
  constructor
  · rintro ⟨uid, huid, gid, hgid, euid, heuid, egid, hegid, capBnd, hcapBnd, mode, hmode, -⟩
    exact ⟨⟨uid, huid⟩, ⟨gid, hgid⟩, ⟨euid, heuid⟩, ⟨egid, hegid⟩, ⟨capBnd, hcapBnd⟩, ⟨mode, hmode⟩⟩
  · rintro ⟨⟨uid, huid⟩, ⟨gid, hgid⟩, ⟨euid, heuid⟩, ⟨egid, hegid⟩, ⟨capBnd, hcapBnd⟩, ⟨mode, hmode⟩⟩
    obtain ⟨label, hlabel⟩ := exists_readLsmLabel fs root pid
    exact ⟨uid, huid, gid, hgid, euid, heuid, egid, hegid, capBnd, hcapBnd, mode, hmode, label, hlabel, _, rfl⟩

theorem capabilitiesEffective_of_readSecurity (h : (readSecurity root pid).resultOn fs = .ok context) :
    context.capabilitiesEffective = decodeCapabilities mask := by
  have hcapEff := hexStatusValue_of_showsMask (procPath root pid "status") hmask (by decide) (by decide)
  simp only [readSecurity, Procfs.resultOn_bind, resultOn_readToString, htext, Except.mapError, ok_bind,
    Procfs.resultOn_liftExcept, hcapEff, bind_eq_ok_iff, Procfs.resultOn_pure, Except.ok.injEq] at h
  obtain ⟨uid, -, gid, -, euid, -, egid, -, capBnd, -, mode, -, label, -, rfl⟩ := h
  rfl

/-- Every bit that the status line shows is labelled, in order, and the labels tell the mask: no other reading
has the same unless its line shows the same. -/
theorem readSecurity_capabilities :
    ((∃ context, (readSecurity root pid).resultOn fs = .ok context) ↔
      IdentityReadable content (procPath root pid "status")) ∧
    (∀ context, (readSecurity root pid).resultOn fs = .ok context →
      LabelsBits mask context.capabilitiesEffective ∧
      ∀ (fs' : FileSystem) (root' : String) (pid' : Pid) (content' : Text) (mask' : UInt64)
        (context' : SecurityContext), fs'.text (procPath root' pid' "status") = .ok content' →
        ShowsMask content' "CapEff:" mask' → (readSecurity root' pid').resultOn fs' = .ok context' →
        context'.capabilitiesEffective = context.capabilitiesEffective → mask' = mask) ∧
    Function.Injective capabilityLabel := by
  refine ⟨readSecurity_ok_iff htext hmask, fun context hok => ?_, capabilityLabel_injective⟩
  have hlabels := labelsBits_decodeCapabilities mask
  rw [← capabilitiesEffective_of_readSecurity htext hmask hok] at hlabels
  refine ⟨hlabels, ?_⟩
  intro fs' root' pid' content' mask' context' htext' hmask' hok' hsame
  have hlabels' := labelsBits_decodeCapabilities mask'
  rw [← capabilitiesEffective_of_readSecurity htext' hmask' hok', hsame] at hlabels'
  exact hlabels'.mask_eq hlabels

end Context

/-- A capability of the table, and a bit beyond it. -/
def futureStatus : String :=
  "Name:\tsshd\nUid:\t1000\t0\t0\t0\nGid:\t1000\t0\t0\t0\nCapEff:\t0004000000000400\n" ++
    "CapBnd:\t000001ffffffffff\nSeccomp:\t2\n"

theorem readSecurity_capabilities_future :
    let fs := FileSystem.holding futureStatus.toUTF8
    (∃ context, (readSecurity "/proc" 100).resultOn fs = .ok context) ∧
    ∀ context, (readSecurity "/proc" 100).resultOn fs = .ok context →
      LabelsBits 0x4000000000400 context.capabilitiesEffective := by
  intro fs
  have htext : fs.text (procPath "/proc" 100 "status") = .ok futureStatus.toList := by decide +kernel
  have hlines : Text.lines futureStatus.toList = [
      "Name:\tsshd".toList, "Uid:\t1000\t0\t0\t0".toList, "Gid:\t1000\t0\t0\t0".toList,
      "CapEff:\t0004000000000400".toList, "CapBnd:\t000001ffffffffff".toList, "Seccomp:\t2".toList] := by
    decide +kernel
  have hmask : ShowsMask futureStatus.toList "CapEff:" 0x4000000000400 :=
    ⟨["Name:\tsshd".toList, "Uid:\t1000\t0\t0\t0".toList, "Gid:\t1000\t0\t0\t0".toList],
      ["CapBnd:\t000001ffffffffff".toList, "Seccomp:\t2".toList], hlines.trans (by decide +kernel), by decide⟩
  obtain ⟨hok, hlabels, -⟩ := readSecurity_capabilities htext hmask
  refine ⟨hok.mpr ⟨⟨1000, ?_⟩, ⟨1000, ?_⟩, ⟨0, ?_⟩, ⟨0, ?_⟩, ⟨0x1ffffffffff, ?_⟩, ⟨2, ?_⟩⟩,
    fun context h => (hlabels context h).1⟩
  all_goals simp only [firstStatusValue, nthStatusValue, hexStatusValue, hlines]
  all_goals decide +kernel

end ProcessExplorer.Telemetry.Linux
