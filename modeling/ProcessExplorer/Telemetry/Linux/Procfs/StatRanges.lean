import Mathlib.Algebra.Ring.Int.Defs
import ProcessExplorer.Telemetry.Linux.Procfs.Common

/-! The numbers of a stat line. All but the pid are read as i64 and then cast to the type of their field, and a
cast does not fail. -/
namespace ProcessExplorer.Telemetry.Linux
open Library Model

/-- The text before the comm, and the words after it; none where a line has no comm or too few of these. -/
def statTokens (content : Text) : Option (Text × List Text) := do
  let content := Text.trimEnd content
  let opening ← content.idxOf? '('
  let closing ← Text.rfind ')' content
  let fields := Text.splitWhitespace (Text.trimStart (content.drop (closing + 1)))
  if closing ≤ opening ∨ fields.length < 20 then none else some (Text.trim (content.take opening), fields)

inductive StatNumber where
  | id
  | ppid
  | pgrp
  | session
  | utime
  | stime
  | priority
  | nice
  | numThreads
  | starttime
  deriving DecidableEq

namespace StatNumber

/-- The number of the field, as proc(5) counts them. -/
def position : StatNumber → ℕ
  | id => 1
  | ppid => 4
  | pgrp => 5
  | session => 6
  | utime => 14
  | stime => 15
  | priority => 18
  | nice => 19
  | numThreads => 20
  | starttime => 22

def token (content : Text) (f : StatNumber) : Option Text :=
  (statTokens content).bind fun tokens => if f = id then some tokens.1 else tokens.2[f.position - 3]?

/-- What is parsed of the token, before any cast. -/
def reading (content : Text) (f : StatNumber) : Option ℤ :=
  (f.token content).bind fun t => if f = id then (Text.parseI32 t).map Int32.toInt else Text.parseI64 t

def value (stat : StatFields) : StatNumber → ℤ
  | id => stat.id.toInt
  | ppid => stat.ppid.toInt
  | pgrp => stat.pgrp.toInt
  | session => stat.session.toInt
  | utime => stat.utime.toNat
  | stime => stat.stime.toNat
  | priority => stat.priority.toInt
  | nice => stat.nice.toInt
  | numThreads => stat.numThreads.toNat
  | starttime => stat.starttime.toNat

/-- The integers that the type of the field holds. -/
def InRange : StatNumber → ℤ → Prop
  | id, n | ppid, n | pgrp, n | session, n | priority, n | nice, n => -2 ^ 31 ≤ n ∧ n < 2 ^ 31
  | utime, n | stime, n | starttime, n => 0 ≤ n ∧ n < 2 ^ 64
  | numThreads, n => 0 ≤ n ∧ n < 2 ^ 32

/-- The cast of an i64 to the type of the field. -/
def cast : StatNumber → ℤ → ℤ
  | id, n => n
  | ppid, n | pgrp, n | session, n | priority, n | nice, n => (Int32.ofInt n).toInt
  | utime, n | stime, n | starttime, n => (UInt64.ofInt n).toNat
  | numThreads, n => (UInt32.ofInt n).toNat

theorem cast_of_inRange {f : StatNumber} {n : ℤ} (h : f.InRange n) : f.cast n = n := by
  have hi32 (hn : -2 ^ 31 ≤ n ∧ n < 2 ^ 31) : (Int32.ofInt n).toInt = n :=
    Int32.toInt_ofInt_of_le hn.1 hn.2
  have hu64 (hn : 0 ≤ n ∧ n < 2 ^ 64) : ((UInt64.ofInt n).toNat : ℤ) = n := by
    have hlt : n.toNat < UInt64.size := (Int.toNat_lt hn.1).mpr hn.2
    rw [UInt64.ofInt, Int.emod_eq_of_lt hn.1 hn.2, UInt64.toNat_ofNat_of_lt' hlt, Int.toNat_of_nonneg hn.1]
  have hu32 (hn : 0 ≤ n ∧ n < 2 ^ 32) : ((UInt32.ofInt n).toNat : ℤ) = n := by
    have hlt : n.toNat < UInt32.size := (Int.toNat_lt hn.1).mpr hn.2
    rw [UInt32.ofInt, Int.emod_eq_of_lt hn.1 hn.2, UInt32.toNat_ofNat_of_lt' hlt, Int.toNat_of_nonneg hn.1]
  cases f with
  | id => rfl
  | ppid | pgrp | session | priority | nice => exact hi32 h
  | utime | stime | starttime => exact hu64 h
  | numThreads => exact hu32 h

end StatNumber

/-- No number is altered: those of the result are those of the line, and a line with one that its field cannot
hold is rejected with a parse error. -/
structure NumbersExact (content : Text) (path : String) : Prop where
  exact : ∀ stat, parseStatLine content path = .ok stat →
    ∀ f : StatNumber, (f.token content).bind Text.parseInt = some (f.value stat)
  rejected : ∀ (f : StatNumber) n, (f.token content).bind Text.parseInt = some n → ¬ f.InRange n →
    ∃ message, parseStatLine content path = .error (.parse path message)

/-- Everything on the line is read, and one number is outside the range of its field. -/
def Narrowed (content : Text) : Prop :=
  (∀ f : StatNumber, (f.reading content).isSome) ∧
    ∃ (f : StatNumber) (n : ℤ), f.reading content = some n ∧ ¬ f.InRange n

section Outcome
variable (content : Text) (path : String)

/-- The line is rejected. -/
def Rejected : Prop := ∃ message, parseStatLine content path = .error (.parse path message)

variable {content path}

theorem rejected_of_no_tokens (h : statTokens content = none) : Rejected content path := by
  unfold Rejected parseStatLine
  unfold statTokens at h
  cases hopening : (Text.trimEnd content).idxOf? '(' with
  | none =>
    simp only [hopening]
    exact ⟨_, rfl⟩
  | some opening =>
    cases hclosing : Text.rfind ')' (Text.trimEnd content) with
    | none =>
      simp only [hopening, hclosing]
      exact ⟨_, rfl⟩
    | some closing =>
      simp only [hopening, hclosing, Option.bind_eq_bind, Option.bind_some] at h ⊢
      split
      · exact ⟨_, rfl⟩
      · rename_i hle
        split
        · exact ⟨_, rfl⟩
        · rename_i hlong
          rw [if_neg (not_or.mpr ⟨hle, hlong⟩)] at h
          cases h

section Tokens
variable {idStr : Text} {fields : List Text} (h : statTokens content = some (idStr, fields))
include h

theorem exists_of_tokens : ∃ opening closing, (Text.trimEnd content).idxOf? '(' = some opening ∧
    Text.rfind ')' (Text.trimEnd content) = some closing ∧ ¬ closing ≤ opening ∧ ¬ fields.length < 20 ∧
    Text.trim ((Text.trimEnd content).take opening) = idStr ∧
    Text.splitWhitespace (Text.trimStart ((Text.trimEnd content).drop (closing + 1))) = fields := by
  obtain ⟨opening, hopening, h⟩ := Option.bind_eq_some_iff.mp h
  obtain ⟨closing, hclosing, h⟩ := Option.bind_eq_some_iff.mp h
  dsimp only at h
  split at h
  · cases h
  · rename_i hshape
    obtain ⟨rfl, rfl⟩ := Prod.mk.inj (Option.some.inj h)
    obtain ⟨hle, hlong⟩ := not_or.mp hshape
    exact ⟨opening, closing, hopening, hclosing, hle, hlong, rfl, rfl⟩

theorem getElem?_tokens {k : ℕ} (hk : k < 20) : fields[k]? = some (fields.getD k []) := by
  obtain ⟨-, -, -, -, -, hlong, -⟩ := exists_of_tokens h
  rw [List.getD_eq_getElem?_getD, List.getElem?_eq_getElem (hk.trans_le (not_lt.mp hlong)), Option.getD_some]

theorem reading_id_of_tokens : StatNumber.reading content .id = (Text.parseI32 idStr).map Int32.toInt := by
  simp [StatNumber.reading, StatNumber.token, h]

theorem reading_of_tokens {f : StatNumber} (hf : f ≠ .id) :
    f.reading content = Text.parseI64 (fields.getD (f.position - 3) []) := by
  have hposition : f.position - 3 < 20 := by cases f <;> decide
  rw [StatNumber.reading, StatNumber.token, h, Option.bind_some, if_neg hf, getElem?_tokens h hposition,
    Option.bind_some, if_neg hf]

/-- A line is read with the casts of its numbers when all of them parse, and is rejected otherwise. -/
theorem parseStatLine_cases :
    (∃ stat, parseStatLine content path = .ok stat ∧
      ∀ f : StatNumber, ∃ n, f.reading content = some n ∧ f.value stat = f.cast n) ∨
    Rejected content path ∧ ∃ f : StatNumber, f.reading content = none := by
  have hid := reading_id_of_tokens h
  have hnumber (f : StatNumber) (hf : f ≠ .id) := reading_of_tokens h hf
  have hfield (k : ℕ) (hk : k < 20) := getElem?_tokens h hk
  obtain ⟨opening, closing, hopening, hclosing, hle, hlong, hidStr, hfields⟩ := exists_of_tokens h
  unfold Rejected parseStatLine
  simp only [hopening, hclosing, if_neg hle, hidStr, hfields, if_neg hlong, Nat.reduceSub, hfield 0 (by decide),
    hfield 1 (by decide), hfield 2 (by decide), hfield 3 (by decide), hfield 11 (by decide), hfield 12 (by decide),
    hfield 15 (by decide), hfield 16 (by decide), hfield 17 (by decide), hfield 19 (by decide), ok_bind]
  rcases hpid : Text.parseI32 idStr with _ | pid
  · exact .inr ⟨⟨_, rfl⟩, .id, by rw [hid, hpid]; rfl⟩
  rcases hppid : Text.parseI64 (fields.getD 1 []) with _ | ppid
  · exact .inr ⟨⟨_, rfl⟩, .ppid, (hnumber .ppid (by decide)).trans hppid⟩
  rcases hpgrp : Text.parseI64 (fields.getD 2 []) with _ | pgrp
  · exact .inr ⟨⟨_, rfl⟩, .pgrp, (hnumber .pgrp (by decide)).trans hpgrp⟩
  rcases hsession : Text.parseI64 (fields.getD 3 []) with _ | session
  · exact .inr ⟨⟨_, rfl⟩, .session, (hnumber .session (by decide)).trans hsession⟩
  rcases hutime : Text.parseI64 (fields.getD 11 []) with _ | utime
  · exact .inr ⟨⟨_, rfl⟩, .utime, (hnumber .utime (by decide)).trans hutime⟩
  rcases hstime : Text.parseI64 (fields.getD 12 []) with _ | stime
  · exact .inr ⟨⟨_, rfl⟩, .stime, (hnumber .stime (by decide)).trans hstime⟩
  rcases hpriority : Text.parseI64 (fields.getD 15 []) with _ | priority
  · exact .inr ⟨⟨_, rfl⟩, .priority, (hnumber .priority (by decide)).trans hpriority⟩
  rcases hnice : Text.parseI64 (fields.getD 16 []) with _ | nice
  · exact .inr ⟨⟨_, rfl⟩, .nice, (hnumber .nice (by decide)).trans hnice⟩
  rcases hthreads : Text.parseI64 (fields.getD 17 []) with _ | threads
  · exact .inr ⟨⟨_, rfl⟩, .numThreads, (hnumber .numThreads (by decide)).trans hthreads⟩
  rcases hstart : Text.parseI64 (fields.getD 19 []) with _ | start
  · exact .inr ⟨⟨_, rfl⟩, .starttime, (hnumber .starttime (by decide)).trans hstart⟩
  refine .inl ⟨_, rfl, fun f => ?_⟩
  cases f with
  | id => exact ⟨pid.toInt, by rw [hid, hpid]; rfl, rfl⟩
  | ppid => exact ⟨ppid, (hnumber .ppid (by decide)).trans hppid, rfl⟩
  | pgrp => exact ⟨pgrp, (hnumber .pgrp (by decide)).trans hpgrp, rfl⟩
  | session => exact ⟨session, (hnumber .session (by decide)).trans hsession, rfl⟩
  | utime => exact ⟨utime, (hnumber .utime (by decide)).trans hutime, rfl⟩
  | stime => exact ⟨stime, (hnumber .stime (by decide)).trans hstime, rfl⟩
  | priority => exact ⟨priority, (hnumber .priority (by decide)).trans hpriority, rfl⟩
  | nice => exact ⟨nice, (hnumber .nice (by decide)).trans hnice, rfl⟩
  | numThreads => exact ⟨threads, (hnumber .numThreads (by decide)).trans hthreads, rfl⟩
  | starttime => exact ⟨start, (hnumber .starttime (by decide)).trans hstart, rfl⟩

end Tokens

/-- The same for any text. -/
theorem parseStatLine_outcome (content : Text) (path : String) :
    (∃ stat, parseStatLine content path = .ok stat ∧
      ∀ f : StatNumber, ∃ n, f.reading content = some n ∧ f.value stat = f.cast n) ∨
    Rejected content path ∧ ∃ f : StatNumber, f.reading content = none := by
  cases htokens : statTokens content with
  | some tokens => exact parseStatLine_cases htokens
  | none =>
    refine .inr ⟨rejected_of_no_tokens htokens, .id, ?_⟩
    rw [StatNumber.reading, StatNumber.token, htokens]
    rfl

/-- What is read of a token is the number it spells. -/
theorem StatNumber.parseInt_of_reading {f : StatNumber} {n : ℤ} (h : f.reading content = some n) :
    (f.token content).bind Text.parseInt = some n := by
  obtain ⟨token, htoken, hread⟩ := Option.bind_eq_some_iff.mp h
  rw [htoken, Option.bind_some]
  split at hread
  · obtain ⟨pid, hpid, rfl⟩ := Option.map_eq_some_iff.mp hread
    exact Text.parseInt_of_parseI32 hpid
  · exact Text.parseInt_of_parseI64 hread

end Outcome

/-- The numbers of a stat line are exact unless all of them are read and one does not fit into its field. -/
theorem numbersExact_iff (content : Text) (path : String) : NumbersExact content path ↔ ¬ Narrowed content := by
  constructor
  · rintro h ⟨hread, f, n, hn, hrange⟩
    obtain ⟨message, herror⟩ := h.rejected f n (StatNumber.parseInt_of_reading hn) hrange
    rcases parseStatLine_outcome content path with ⟨stat, hok, -⟩ | ⟨-, g, hg⟩
    · cases hok.symm.trans herror
    · cases hg ▸ hread g
  · intro h
    rcases parseStatLine_outcome content path with ⟨stat, hok, hnumbers⟩ | ⟨⟨message, herror⟩, -⟩
    · have hrange (f : StatNumber) (n : ℤ) (hn : f.reading content = some n) : f.InRange n := by
        by_contra hout
        refine h ⟨fun g => ?_, f, n, hn, hout⟩
        obtain ⟨m, hm, -⟩ := hnumbers g
        exact Option.isSome_iff_exists.mpr ⟨m, hm⟩
      constructor
      · intro stat' hok' f
        obtain rfl := Except.ok.inj (hok.symm.trans hok')
        obtain ⟨n, hn, hvalue⟩ := hnumbers f
        rw [hvalue, StatNumber.cast_of_inRange (hrange f n hn)]
        exact StatNumber.parseInt_of_reading hn
      · intro f n hn hout
        obtain ⟨m, hm, -⟩ := hnumbers f
        obtain rfl := Option.some.inj (hn.symm.trans (StatNumber.parseInt_of_reading hm))
        exact absurd (hrange f n hm) hout
    · constructor
      · intro stat hok
        cases hok.symm.trans herror
      · exact fun _ _ _ _ => ⟨message, herror⟩

/-- The line of a process whose parent is 2 ^ 32 + 1, which is not a pid. -/
def wrappedLine : Text :=
  "4242 (sh) S 4294967297 4242 4242 0 -1 4194560 12 0 1 0 7 3 5 6 20 0 1 0 98765".toList

/-- It is read as a child of process 1. -/
theorem parseStatLine_wraps_parent :
    (parseStatLine wrappedLine "stat").map StatFields.ppid = .ok 1 ∧
      (StatNumber.token wrappedLine .ppid).bind Text.parseInt = some 4294967297 ∧
      ¬ NumbersExact wrappedLine "stat" := by
  have hppid : (parseStatLine wrappedLine "stat").map StatFields.ppid = .ok 1 := by decide +kernel
  have htoken : (StatNumber.token wrappedLine .ppid).bind Text.parseInt = some 4294967297 := by decide +kernel
  refine ⟨hppid, htoken, fun h => ?_⟩
  have hrange : ¬ StatNumber.InRange .ppid 4294967297 := by simp [StatNumber.InRange]
  obtain ⟨message, herror⟩ := h.rejected .ppid 4294967297 htoken hrange
  rw [herror] at hppid
  cases hppid

end ProcessExplorer.Telemetry.Linux
