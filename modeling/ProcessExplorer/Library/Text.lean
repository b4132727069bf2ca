import Mathlib.Algebra.Group.Nat.Defs
import Mathlib.Data.List.Forall2
import Mathlib.Data.List.Infix

/-! The text operations of the Rust standard library that line-based parsers use.
Text is a list of characters, so that every operation computes. -/
namespace ProcessExplorer.Library

abbrev Text := List Char

namespace Text

/-- The Unicode White_Space property. -/
def isWhitespace (c : Char) : Bool :=
  let n := c.toNat
  (9 ≤ n && n ≤ 13) || n == 0x20 || n == 0x85 || n == 0xA0 || n == 0x1680 ||
    (0x2000 ≤ n && n ≤ 0x200A) || n == 0x2028 || n == 0x2029 || n == 0x202F || n == 0x205F ||
    n == 0x3000

def trimStart (t : Text) : Text := t.dropWhile isWhitespace

def trimEnd (t : Text) : Text := (t.reverse.dropWhile isWhitespace).reverse

def trim (t : Text) : Text := trimEnd (trimStart t)

/-- The maximal runs without white space. -/
def splitWhitespace (t : Text) : List Text := (t.splitOnP isWhitespace).filter (· ≠ [])

/-- One of the runs that are left: not empty, and without white space. -/
def IsWord (w : Text) : Prop := w ≠ [] ∧ ∀ c ∈ w, isWhitespace c = false

instance : DecidablePred IsWord := fun w =>
  decidable_of_iff (w.isEmpty = false ∧ w.all (fun c => !isWhitespace c) = true) (by simp [IsWord])

private def dropCarriageReturn (line : Text) : Text :=
  if line.getLast? = some '\r' then line.dropLast else line

/-- The lines of a text. Each ends in a line feed that a carriage return may precede;
the last may also end with the text, and then keeps a carriage return. -/
def lines (t : Text) : List Text :=
  let pieces := t.splitOn '\n'
  pieces.dropLast.map dropCarriageReturn ++ (pieces.getLast?.toList.filter (· ≠ []))

/-- At most n pieces; the last one holds all that remains, separators included. -/
def splitn : Nat → Char → Text → List Text
  | 0, _, _ => []
  | 1, _, t => [t]
  | n + 2, sep, t =>
    match t.dropWhile (· ≠ sep) with
    | [] => [t]
    | _ :: rest => t.takeWhile (· ≠ sep) :: splitn (n + 1) sep rest

/-- What stands before the first occurrence of a character, and what after it. -/
def splitOnce (sep : Char) (t : Text) : Option (Text × Text) :=
  match t.dropWhile (· ≠ sep) with
  | [] => none
  | _ :: rest => some (t.takeWhile (· ≠ sep), rest)

/-- What follows a key at the front. -/
def stripPrefix (key t : Text) : Option Text := if key <+: t then some (t.drop key.length) else none

/-- What precedes a key at the end. -/
def stripSuffix (key t : Text) : Option Text :=
  if key <:+ t then some (t.take (t.length - key.length)) else none

theorem stripPrefix_eq_some_iff {key t rest : Text} : stripPrefix key t = some rest ↔ t = key ++ rest := by
  rw [stripPrefix, Option.ite_none_right_eq_some, Option.some_inj]
  constructor
  · rintro ⟨⟨rest', rfl⟩, rfl⟩
    rw [List.drop_left]
  · rintro rfl
    exact ⟨List.prefix_append _ _, List.drop_left⟩

theorem stripSuffix_eq_some_iff {key t rest : Text} : stripSuffix key t = some rest ↔ t = rest ++ key := by
  rw [stripSuffix, Option.ite_none_right_eq_some, Option.some_inj]
  constructor
  · rintro ⟨⟨rest', rfl⟩, rfl⟩
    simp
  · rintro rfl
    simp

/-- Drop a nonempty key from the front as often as it stands there. -/
def trimStartMatches (key t : Text) : Text := go t.length t
where
  go : Nat → Text → Text
    | 0, t => t
    | n + 1, t => if key ≠ [] ∧ key <+: t then go n (t.drop key.length) else t

theorem trimStartMatches_of_not_prefix {key t : Text} (h : ¬ key <+: t) : trimStartMatches key t = t := by
  rw [trimStartMatches]
  cases t.length with
  | zero => rfl
  | succ n => rw [trimStartMatches.go, if_neg fun hkey => h hkey.2]

theorem trimStartMatches_append {key rest : Text} (hkey : key ≠ []) (hrest : ¬ key <+: rest) :
    trimStartMatches key (key ++ rest) = rest := by
  -- One round drops the key; the next finds none, whether or not any is left.
  have hstop (n : Nat) : trimStartMatches.go key n rest = rest := by
    cases n with
    | zero => rfl
    | succ n => rw [trimStartMatches.go, if_neg fun h => hrest h.2]
  obtain ⟨n, hn⟩ : ∃ n, (key ++ rest).length = n + 1 :=
    Nat.exists_eq_succ_of_ne_zero fun h => hkey (List.append_eq_nil_iff.mp (List.length_eq_zero_iff.mp h)).1
  rw [trimStartMatches, hn, trimStartMatches.go, if_pos ⟨hkey, List.prefix_append key rest⟩, List.drop_left, hstop]

/-- The number of characters before the last occurrence of c. -/
def rfind (c : Char) (t : Text) : Option Nat :=
  (t.reverse.idxOf? c).map fun back => t.length - 1 - back

/-- The key stands somewhere in the text. -/
def contains (key t : Text) : Bool := key <:+: t

private def digits (t : Text) : Option Nat :=
  if t ≠ [] ∧ t.all Char.isDigit then
    some (t.foldl (fun n c => 10 * n + (c.toNat - '0'.toNat)) 0)
  else none

/-- Decimal digits after an optional plus sign. -/
def parseNat : Text → Option Nat
  | '+' :: t => digits t
  | t => digits t

/-- Decimal digits after an optional sign. -/
def parseInt : Text → Option Int
  | '-' :: t => (digits t).map fun n => -(n : Int)
  | t => (parseNat t).map fun n => (n : Int)

def parseU32 (t : Text) : Option UInt32 :=
  (parseNat t).bind fun n => if n < UInt32.size then some (UInt32.ofNat n) else none

def parseU64 (t : Text) : Option UInt64 :=
  (parseNat t).bind fun n => if n < UInt64.size then some (UInt64.ofNat n) else none

def parseI32 (t : Text) : Option Int32 :=
  (parseInt t).bind fun n =>
    if Int32.minValue.toInt ≤ n ∧ n ≤ Int32.maxValue.toInt then some (Int32.ofInt n) else none

/-- An i64, still as the integer it denotes: every use of it in the source converts it. -/
def parseI64 (t : Text) : Option Int :=
  (parseInt t).bind fun n =>
    if Int64.minValue.toInt ≤ n ∧ n ≤ Int64.maxValue.toInt then some n else none

def hexValue (c : Char) : Option Nat :=
  if c.isDigit then some (c.toNat - '0'.toNat)
  else if 'a' ≤ c ∧ c ≤ 'f' then some (c.toNat - 'a'.toNat + 10)
  else if 'A' ≤ c ∧ c ≤ 'F' then some (c.toNat - 'A'.toNat + 10)
  else none

private def hexDigits (t : Text) : Option Nat :=
  if t = [] then none else t.foldlM (fun n c => (hexValue c).map (16 * n + ·)) 0

/-- Hexadecimal digits of either case after an optional plus sign. -/
def parseHex : Text → Option Nat
  | '+' :: t => hexDigits t
  | t => hexDigits t

def parseHexU8 (t : Text) : Option UInt8 :=
  (parseHex t).bind fun n => if n < UInt8.size then some (UInt8.ofNat n) else none

def parseHexU16 (t : Text) : Option UInt16 :=
  (parseHex t).bind fun n => if n < UInt16.size then some (UInt16.ofNat n) else none

def parseHexU64 (t : Text) : Option UInt64 :=
  (parseHex t).bind fun n => if n < UInt64.size then some (UInt64.ofNat n) else none

/-- The order of strings, which is that of their bytes and so of their code points. -/
def le (a b : Text) : Bool := !List.lex b a fun c d => c.toNat < d.toNat

/-- Text from bytes that must be valid UTF-8. -/
def fromUtf8 (bytes : ByteArray) : Option Text := (String.fromUTF8? bytes).map String.toList

example : lines "a\r\nb\n\nc\r".toList = [['a'], ['b'], [], ['c', '\r']] := by decide

example : splitn 3 ':' "0::/a:b".toList = [['0'], [], "/a:b".toList] := by decide

example : parseHexU8 "+A".toList = some 10 ∧ parseHexU8 "1fF".toList = none := by decide

example : parseInt "-5".toList = some (-5) ∧ parseNat "-5".toList = none := by decide

/-- An integer in decimal, with a minus sign before a negative one. -/
def ofInt (n : Int) : Text := if n < 0 then '-' :: Nat.toDigits 10 n.natAbs else Nat.toDigits 10 n.natAbs

section Decimal

theorem digits_toDigits (n : Nat) : digits (Nat.toDigits 10 n) = some n := by
  have hall : (Nat.toDigits 10 n).all Char.isDigit := by
    rw [List.all_eq_true]
    intro c hc
    exact Nat.isDigit_of_mem_toDigits (by decide) (by decide) hc
  rw [digits, if_pos ⟨Nat.toDigits_ne_nil, hall⟩]
  exact congrArg some Nat.ofDigitChars_ten_toDigits

/-- A digit comes first, so neither sign is read. -/
theorem parseNat_toDigits (n : Nat) : parseNat (Nat.toDigits 10 n) = some n := by
  rw [parseNat.eq_def]
  split
  · next t ht =>
    have hdigit : '+'.isDigit := Nat.isDigit_of_mem_toDigits (b := 10) (n := n) (by decide) (by decide)
      (ht ▸ List.mem_cons_self)
    cases hdigit
  · exact digits_toDigits n

theorem toDigits_inj {m n : Nat} (h : Nat.toDigits 10 m = Nat.toDigits 10 n) : m = n := by
  have hvalue := congrArg parseNat h
  rw [parseNat_toDigits, parseNat_toDigits] at hvalue
  exact Option.some.inj hvalue

theorem parseInt_ofInt (n : Int) : parseInt (ofInt n) = some n := by
  rw [ofInt]
  split
  · next hneg =>
    rw [parseInt, digits_toDigits]
    exact congrArg some (show -(n.natAbs : Int) = n by omega)
  · next hpos =>
    rw [parseInt.eq_def]
    split
    · next t ht =>
      have hdigit : '-'.isDigit := Nat.isDigit_of_mem_toDigits (b := 10) (n := n.natAbs) (by decide) (by decide)
        (ht ▸ List.mem_cons_self)
      cases hdigit
    · rw [parseNat_toDigits]
      exact congrArg some (show (n.natAbs : Int) = n by omega)

theorem parseInt_of_parseI64 {t : Text} {n : Int} (h : parseI64 t = some n) : parseInt t = some n := by
  obtain ⟨m, hm, h⟩ := Option.bind_eq_some_iff.mp h
  split at h
  · rw [hm, Option.some.inj h]
  · cases h

theorem parseInt_of_parseI32 {t : Text} {n : Int32} (h : parseI32 t = some n) : parseInt t = some n.toInt := by
  obtain ⟨m, hm, h⟩ := Option.bind_eq_some_iff.mp h
  split at h
  · rename_i hrange
    have hlt : m < 2 ^ 31 := Int.lt_of_le_of_lt hrange.2 (by decide)
    rw [hm, ← Option.some.inj h, Int32.toInt_ofInt_of_le hrange.1 hlt]
  · cases h

theorem parseI64_ofInt {n : Int} (hmin : Int64.minValue.toInt ≤ n) (hmax : n ≤ Int64.maxValue.toInt) :
    parseI64 (ofInt n) = some n := by
  rw [parseI64, parseInt_ofInt, Option.bind_some, if_pos ⟨hmin, hmax⟩]

theorem parseI32_ofInt (n : Int32) : parseI32 (ofInt n.toInt) = some n := by
  rw [parseI32, parseInt_ofInt, Option.bind_some, if_pos ⟨n.minValue_le_toInt, n.toInt_le⟩, Int32.ofInt_toInt]

theorem parseU64_ofInt (n : UInt64) : parseU64 (ofInt n.toNat) = some n := by
  rw [ofInt, if_neg (Int.not_lt.mpr (Int.natCast_nonneg _)), Int.natAbs_natCast, parseU64, parseNat_toDigits,
    Option.bind_some, if_pos n.toNat_lt, UInt64.ofNat_toNat]

theorem parseU32_ofInt (n : UInt32) : parseU32 (ofInt n.toNat) = some n := by
  rw [ofInt, if_neg (Int.not_lt.mpr (Int.natCast_nonneg _)), Int.natAbs_natCast, parseU32, parseNat_toDigits,
    Option.bind_some, if_pos n.toNat_lt, UInt32.ofNat_toNat]

theorem mem_ofInt {c : Char} {n : Int} (h : c ∈ ofInt n) : c = '-' ∨ c.isDigit := by
  have hdigit (h : c ∈ Nat.toDigits 10 n.natAbs) : c.isDigit :=
    Nat.isDigit_of_mem_toDigits (by decide) (by decide) h
  rw [ofInt] at h
  split at h
  · rcases List.mem_cons.mp h with rfl | h
    · exact .inl rfl
    · exact .inr (hdigit h)
  · exact .inr (hdigit h)

theorem ofInt_ne_nil (n : Int) : ofInt n ≠ [] := by
  rw [ofInt]
  split
  · exact List.cons_ne_nil _ _
  · exact Nat.toDigits_ne_nil

theorem not_isWhitespace_of_mem_ofInt {c : Char} {n : Int} (h : c ∈ ofInt n) : isWhitespace c = false := by
  rcases mem_ofInt h with rfl | hdigit
  · decide
  · have hrange : 48 ≤ c.toNat ∧ c.toNat ≤ 57 := by
      rw [Char.isDigit, Bool.and_eq_true, decide_eq_true_eq, decide_eq_true_eq] at hdigit
      exact ⟨UInt32.le_iff_toNat_le.mp hdigit.1, UInt32.le_iff_toNat_le.mp hdigit.2⟩
    grind [isWhitespace]

end Decimal

/-- A hexadecimal digit as %X prints it. -/
def upperDigit (d : Nat) : Char := (Nat.digitChar d).toUpper

/-- Exactly that many digits, as %0*X prints a number that fits. -/
def upperHex : Nat → Nat → Text
  | 0, _ => []
  | width + 1, n => upperHex width (n / 16) ++ [upperDigit (n % 16)]

example : upperHex 8 0x100007f = "0100007F".toList := by decide

section Hexadecimal

theorem hexValue_upperDigit : ∀ d < 16, hexValue (upperDigit d) = some d := by decide

theorem hexValue_digitChar : ∀ d < 16, hexValue (Nat.digitChar d) = some d := by decide

theorem length_upperHex (width n : Nat) : (upperHex width n).length = width := by
  induction width generalizing n with
  | zero => rfl
  | succ width ih => rw [upperHex, List.length_append, ih, List.length_singleton]

theorem hexValue_of_mem_upperHex {c : Char} {width n : Nat} (h : c ∈ upperHex width n) :
    ∃ d, hexValue c = some d := by
  induction width generalizing n with
  | zero => cases h
  | succ width ih =>
    rcases List.mem_append.mp h with h | h
    · exact ih h
    · obtain rfl := List.mem_singleton.mp h
      exact ⟨_, hexValue_upperDigit _ (Nat.mod_lt _ (by decide))⟩

private def foldHex (start : Nat) (t : Text) : Option Nat :=
  t.foldlM (fun n c => (hexValue c).map (16 * n + ·)) start

private theorem foldHex_concat (start : Nat) (t : Text) (c : Char) :
    foldHex start (t ++ [c]) = (foldHex start t).bind fun n => (hexValue c).map (16 * n + ·) := by
  simp [foldHex, List.foldlM_append]

theorem foldHex_upperHex (start width n : Nat) :
    foldHex start (upperHex width n) = some (16 ^ width * start + n % 16 ^ width) := by
  induction width generalizing n with
  | zero => simp [upperHex, foldHex, Nat.mod_one]
  | succ width ih =>
    rw [upperHex, foldHex_concat, ih, Option.bind_some, hexValue_upperDigit _ (Nat.mod_lt _ (by decide)),
      Option.map_some, Nat.pow_succ', Nat.mod_mul, Nat.mul_add, Nat.mul_assoc]
    congr 1
    omega

theorem foldHex_toDigits (n : Nat) : foldHex 0 (Nat.toDigits 16 n) = some n := by
  induction n using Nat.strong_induction_on with
  | _ n ih =>
    rw [Nat.toDigits_eq_if (by decide)]
    split
    · next hlt => simp [foldHex, hexValue_digitChar n hlt]
    · next hge =>
      rw [foldHex_concat, ih (n / 16) (by omega), Option.bind_some,
        hexValue_digitChar _ (Nat.mod_lt _ (by decide)), Option.map_some, Nat.div_add_mod]

/-- Without a plus sign in front there are only the digits to read. -/
theorem parseHex_eq_foldHex {t : Text} (hne : t ≠ []) (hplus : ∀ c ∈ t.head?, c ≠ '+') :
    parseHex t = foldHex 0 t := by
  rw [parseHex.eq_def]
  split
  · exact absurd rfl (hplus '+' rfl)
  · rw [hexDigits, if_neg hne]
    rfl

theorem parseHex_upperHex {width n : Nat} (hw : 0 < width) (hn : n < 16 ^ width) :
    parseHex (upperHex width n) = some n := by
  have hne : upperHex width n ≠ [] := by
    rw [← List.length_pos_iff, length_upperHex]
    exact hw
  rw [parseHex_eq_foldHex hne, foldHex_upperHex, Nat.mod_eq_of_lt hn, Nat.mul_zero, Nat.zero_add]
  rintro c hc rfl
  obtain ⟨d, hd⟩ := hexValue_of_mem_upperHex (List.mem_of_mem_head? hc)
  cases hd

theorem hexValue_of_mem_toDigits {c : Char} {n : Nat} (h : c ∈ Nat.toDigits 16 n) : ∃ d, hexValue c = some d := by
  induction n using Nat.strong_induction_on with
  | _ n ih =>
    rw [Nat.toDigits_eq_if (by decide)] at h
    split at h
    · next hlt =>
      obtain rfl := List.mem_singleton.mp h
      exact ⟨n, hexValue_digitChar n hlt⟩
    · next hge =>
      rcases List.mem_append.mp h with h | h
      · exact ih (n / 16) (by omega) h
      · obtain rfl := List.mem_singleton.mp h
        exact ⟨_, hexValue_digitChar _ (Nat.mod_lt _ (by decide))⟩

/-- At least that many digits in lower case, as the kernel prints addresses. -/
def paddedHex (width n : Nat) : Text :=
  List.replicate (width - (Nat.toDigits 16 n).length) '0' ++ Nat.toDigits 16 n

theorem hexValue_of_mem_paddedHex {c : Char} {width n : Nat} (h : c ∈ paddedHex width n) :
    ∃ d, hexValue c = some d := by
  rcases List.mem_append.mp h with h | h
  · obtain rfl := List.eq_of_mem_replicate h
    exact ⟨0, rfl⟩
  · exact hexValue_of_mem_toDigits h

theorem paddedHex_ne_nil (width n : Nat) : paddedHex width n ≠ [] :=
  List.append_ne_nil_of_right_ne_nil _ (Nat.toDigits_ne_nil)

theorem foldHex_zeros (k : Nat) (t : Text) : foldHex 0 (List.replicate k '0' ++ t) = foldHex 0 t := by
  induction k with
  | zero => rfl
  | succ k ih => exact ih

theorem parseHexU64_paddedHex (width : Nat) (n : UInt64) : parseHexU64 (paddedHex width n.toNat) = some n := by
  have hplus : ∀ c ∈ (paddedHex width n.toNat).head?, c ≠ '+' := by
    rintro c hc rfl
    obtain ⟨d, hd⟩ := hexValue_of_mem_paddedHex (List.mem_of_mem_head? hc)
    cases hd
  rw [parseHexU64, parseHex_eq_foldHex (paddedHex_ne_nil width n.toNat) hplus, paddedHex, foldHex_zeros,
    foldHex_toDigits, Option.bind_some, if_pos n.toNat_lt, UInt64.ofNat_toNat]

theorem parseHexU8_upperHex (n : UInt8) : parseHexU8 (upperHex 2 n.toNat) = some n := by
  have hn := n.toNat_lt
  rw [parseHexU8, parseHex_upperHex (by decide) hn, Option.bind_some, if_pos hn, UInt8.ofNat_toNat]

theorem parseHexU16_upperHex (n : UInt16) : parseHexU16 (upperHex 4 n.toNat) = some n := by
  have hn := n.toNat_lt
  rw [parseHexU16, parseHex_upperHex (by decide) hn, Option.bind_some, if_pos hn, UInt16.ofNat_toNat]

/-- The number that hexadecimal digits stand for. -/
def hexNumber (t : Text) : Nat := t.foldl (fun n c => 16 * n + (hexValue c).getD 0) 0

theorem foldHex_eq_some_iff (start : Nat) (t : Text) (n : Nat) : foldHex start t = some n ↔
    (∀ c ∈ t, (hexValue c).isSome) ∧ t.foldl (fun n c => 16 * n + (hexValue c).getD 0) start = n := by
  induction t generalizing start with
  | nil => simp [foldHex]
  | cons c t ih =>
    have hstep : foldHex start (c :: t) = (hexValue c).bind fun d => foldHex (16 * start + d) t := by
      rw [foldHex, List.foldlM_cons]
      cases hexValue c <;> rfl
    rw [hstep]
    cases hc : hexValue c with
    | none => simp [hc]
    | some d => simp [hc, ih]

/-- Only a plus sign in front can stand among the digits that are accepted. -/
theorem parseHex_eq_some_iff {t : Text} (hplus : '+' ∉ t) (n : Nat) : parseHex t = some n ↔
    t ≠ [] ∧ (∀ c ∈ t, (hexValue c).isSome) ∧ hexNumber t = n := by
  by_cases hne : t = []
  · subst hne
    simp [parseHex, hexDigits]
  · rw [parseHex_eq_foldHex hne fun c hc heq => hplus (heq ▸ List.mem_of_mem_head? hc), foldHex_eq_some_iff,
      hexNumber]
    simp [hne]

theorem parseHexU16_isSome_iff {t : Text} (hplus : '+' ∉ t) : (parseHexU16 t).isSome ↔
    t ≠ [] ∧ (∀ c ∈ t, (hexValue c).isSome) ∧ hexNumber t ≤ 65535 := by
  constructor
  · intro h
    obtain ⟨port, hport⟩ := Option.isSome_iff_exists.mp h
    obtain ⟨n, hn, hport⟩ := Option.bind_eq_some_iff.mp hport
    obtain ⟨hne, hall, rfl⟩ := (parseHex_eq_some_iff hplus n).mp hn
    refine ⟨hne, hall, Nat.le_of_lt_succ ?_⟩
    by_contra hlarge
    rw [if_neg hlarge] at hport
    cases hport
  · rintro ⟨hne, hall, hle⟩
    rw [parseHexU16, (parseHex_eq_some_iff hplus (hexNumber t)).mpr ⟨hne, hall, rfl⟩, Option.bind_some,
      if_pos (Nat.lt_succ_of_le hle)]
    rfl

/-- What the code point of a digit is. -/
theorem hexValue_range {c : Char} {d : Nat} (h : hexValue c = some d) :
    d < 16 ∧ c.toNat ≤ 102 := by
  rw [hexValue] at h
  split at h
  · next hdigit =>
    rw [Char.isDigit, Bool.and_eq_true, decide_eq_true_eq, decide_eq_true_eq] at hdigit
    have hle : c.toNat ≤ 57 := UInt32.le_iff_toNat_le.mp hdigit.2
    obtain rfl := Option.some.inj h
    have hzero : '0'.toNat = 48 := rfl
    omega
  · split at h
    · next hlower =>
      have hge : 97 ≤ c.toNat := hlower.1
      have hle : c.toNat ≤ 102 := hlower.2
      obtain rfl := Option.some.inj h
      have ha : 'a'.toNat = 97 := rfl
      omega
    · split at h
      · next hupper =>
        have hge : 65 ≤ c.toNat := hupper.1
        have hle : c.toNat ≤ 70 := hupper.2
        obtain rfl := Option.some.inj h
        have ha : 'A'.toNat = 65 := rfl
        omega
      · cases h

theorem utf8Size_of_hexValue {c : Char} {d : Nat} (h : hexValue c = some d) : c.utf8Size = 1 := by
  rw [Char.utf8Size_eq_one_iff, UInt32.le_iff_toNat_le]
  exact Nat.le_trans (hexValue_range h).2 (by decide)

/-- A pair passes when it is two digits, or a plus sign and a digit. -/
theorem parseHexU8_pair_isSome_iff {c d : Char} : (parseHexU8 [c, d]).isSome ↔
    (c = '+' ∨ (hexValue c).isSome) ∧ (hexValue d).isSome := by
  by_cases hc : c = '+'
  · subst hc
    have hparse : parseHex ['+', d] = hexValue d := by
      simp [parseHex, hexDigits]
    rw [parseHexU8, hparse]
    cases hd : hexValue d with
    | none => simp
    | some n =>
      have hlt : n < UInt8.size := Nat.lt_trans (hexValue_range hd).1 (by decide)
      simp [hlt]
  · have hparse : parseHex [c, d] = (hexValue c).bind fun m => (hexValue d).map (16 * m + ·) := by
      rw [parseHex_eq_foldHex (List.cons_ne_nil _ _) (by simpa using hc), foldHex, List.foldlM_cons]
      cases hexValue c with
      | none => rfl
      | some m => cases hd : hexValue d <;> simp [hd]
    rw [parseHexU8, hparse]
    cases hm : hexValue c with
    | none => simp [hc]
    | some m =>
      cases hn : hexValue d with
      | none => simp
      | some n =>
        have hlt : 16 * m + n < UInt8.size := by
          have := (hexValue_range hm).1
          have := (hexValue_range hn).1
          change 16 * m + n < 256
          omega
        simp [hlt]

theorem toDigits_sixteen_inj {m n : Nat} (h : Nat.toDigits 16 m = Nat.toDigits 16 n) : m = n := by
  have hm := foldHex_toDigits m
  rw [h, foldHex_toDigits] at hm
  exact (Option.some.inj hm).symm

end Hexadecimal

section Positions
variable {c : Char} {pre post : Text}

theorem idxOf?_append_cons (h : c ∉ pre) : (pre ++ c :: post).idxOf? c = some pre.length := by
  induction pre with
  | nil =>
    rw [List.nil_append, List.idxOf?_cons]
    simp
  | cons d pre ih =>
    obtain ⟨hne, hpre⟩ := not_or.mp (List.mem_cons.not.mp h)
    rw [List.cons_append, List.idxOf?_cons, ih hpre]
    simp [Ne.symm hne]

theorem rfind_append_cons (h : c ∉ post) : rfind c (pre ++ c :: post) = some pre.length := by
  rw [rfind, List.reverse_append, List.reverse_cons, List.append_assoc, List.singleton_append,
    idxOf?_append_cons (by simpa using h), Option.map_some]
  simp only [List.length_append, List.length_cons, List.length_reverse, Option.some.injEq]
  omega

theorem splitOnce_append_cons (h : c ∉ pre) : splitOnce c (pre ++ c :: post) = some (pre, post) := by
  have hpre : ∀ d ∈ pre, decide (d ≠ c) = true := fun d hd => decide_eq_true fun heq => h (heq ▸ hd)
  rw [splitOnce, List.dropWhile_append_of_pos hpre, List.dropWhile_cons_of_neg (by simp),
    List.takeWhile_append_of_pos hpre, List.takeWhile_cons_of_neg (by simp), List.append_nil]

theorem splitn_append_cons {n : Nat} (h : c ∉ pre) :
    splitn (n + 2) c (pre ++ c :: post) = pre :: splitn (n + 1) c post := by
  have hpre : ∀ d ∈ pre, decide (d ≠ c) = true := fun d hd => by simpa using ne_of_mem_of_not_mem hd h
  rw [splitn, List.dropWhile_append_of_pos hpre, List.dropWhile_cons_of_neg (by simp)]
  dsimp only
  rw [List.takeWhile_append_of_pos hpre, List.takeWhile_cons_of_neg (by simp), List.append_nil]

theorem splitOnce_eq_some {t : Text} (h : splitOnce c t = some (pre, post)) : t = pre ++ c :: post ∧ c ∉ pre := by
  rw [splitOnce] at h
  split at h
  · cases h
  · next d rest hdrop =>
    obtain ⟨rfl, rfl⟩ := Prod.mk.inj (Option.some.inj h)
    have hsep : d = c := by
      have := List.head?_dropWhile_not (fun x => decide (x ≠ c)) t
      rw [hdrop] at this
      simpa using this
    subst hsep
    refine ⟨?_, fun hm => ?_⟩
    · rw [← hdrop, List.takeWhile_append_dropWhile]
    · have hall := List.all_takeWhile (p := fun x => decide (x ≠ d)) (l := t)
      simpa using List.all_eq_true.mp hall d hm

end Positions

section Terminated

/-- Pieces that each end in a separator come back, with an empty one after them. -/
theorem splitOn_terminated {sep : Char} {pieces : List Text} (h : ∀ piece ∈ pieces, sep ∉ piece) :
    (pieces.flatMap (· ++ [sep])).splitOn sep = pieces ++ [[]] := by
  induction pieces with
  | nil => rfl
  | cons piece pieces ih =>
    obtain ⟨hpiece, hpieces⟩ := List.forall_mem_cons.mp h
    rw [List.flatMap_cons, List.append_assoc, List.singleton_append, List.splitOn_eq_splitOnP,
      List.splitOnP_append_cons_of_forall_mem _ sep (by simp), ← List.splitOn_eq_splitOnP, ih hpieces,
      List.cons_append]
    intro c hc
    simpa using ne_of_mem_of_not_mem hc hpiece

theorem map_dropCarriageReturn {β : Type} {f : Text → β} (hf : ∀ line, f (line ++ ['\r']) = f line)
    (line : Text) : f (dropCarriageReturn line) = f line := by
  rw [dropCarriageReturn]
  split
  · rename_i h
    rw [← hf line.dropLast, List.dropLast_append_getLast? '\r' h]
  · rfl

/-- Rows that each end in a line feed are the lines again, for a reader that does not mind a carriage
return at the end of one. -/
theorem map_lines_terminated {β : Type} {f : Text → β} (hf : ∀ line, f (line ++ ['\r']) = f line)
    {rows : List Text} (h : ∀ row ∈ rows, '\n' ∉ row) :
    (lines (rows.flatMap (· ++ ['\n']))).map f = rows.map f := by
  rw [lines, splitOn_terminated h]
  simp [map_dropCarriageReturn hf]

/-- The lines are the rows, each but for a carriage return at its end. -/
theorem forall₂_lines_terminated {rows : List Text} (h : ∀ row ∈ rows, '\n' ∉ row) :
    List.Forall₂ (fun line row => line = row ∨ line ++ ['\r'] = row) (lines (rows.flatMap (· ++ ['\n']))) rows := by
  have hlines : lines (rows.flatMap (· ++ ['\n'])) = rows.map dropCarriageReturn := by
    rw [lines, splitOn_terminated h]
    simp
  rw [hlines, List.forall₂_map_left_iff, List.forall₂_same]
  intro row _
  rw [dropCarriageReturn]
  split
  · rename_i h
    exact .inr (List.dropLast_append_getLast? '\r' h)
  · exact .inl rfl

theorem lines_terminated {rows : List Text} (h : ∀ row ∈ rows, '\n' ∉ row)
    (hend : ∀ row ∈ rows, row.getLast? ≠ some '\r') : lines (rows.flatMap (· ++ ['\n'])) = rows := by
  have hmap : rows.map dropCarriageReturn = rows := by
    conv_rhs => rw [← List.map_id rows]
    exact List.map_congr_left fun row hrow => if_neg (hend row hrow)
  rw [lines, splitOn_terminated h]
  simp [hmap]

/-- Behind a header line are the lines of the rest. -/
theorem drop_one_lines {header : Text} (h : '\n' ∉ header) (t : Text) :
    (lines (header ++ '\n' :: t)).drop 1 = lines t := by
  have hsplit : (header ++ '\n' :: t).splitOn '\n' = header :: t.splitOn '\n' := by
    rw [List.splitOn_eq_splitOnP, List.splitOnP_append_cons_of_forall_mem _ '\n' (by simp),
      ← List.splitOn_eq_splitOnP]
    intro c hc
    simpa using ne_of_mem_of_not_mem hc h
  have hne : t.splitOn '\n' ≠ [] := List.splitOn_ne_nil '\n' t
  rw [lines, hsplit, List.dropLast_cons_of_ne_nil hne, List.getLast?_cons_of_ne_nil hne, List.map_cons,
    List.cons_append, List.drop_one, List.tail_cons]
  rfl

end Terminated

end Text

end ProcessExplorer.Library
