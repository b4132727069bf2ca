import Mathlib.Data.List.Nodup
import Mathlib.Data.Rat.Defs

/-! JSON values, and codecs put together the way serde derives them. A JSON text is
represented by the value it denotes. -/
namespace ProcessExplorer.Library

inductive Json where
  | null
  | bool (b : Bool)
  | int (n : Int)
  | float (q : ℚ)
  | str (s : String)
  | arr (items : List Json)
  | obj (entries : List (String × Json))

def Json.isNull : Json → Bool
  | .null => true
  | _ => false

/-- The variant of an externally tagged enum, and what it carries if it is not a bare name. -/
def Json.variant : Json → Option (String × Option Json)
  | .str name => some (name, none)
  | .obj [(name, content)] => some (name, some content)
  | _ => none

/-- What a float is read back as from the text it was written to: not always itself, since a parser may be one unit
in the last place off. -/
abbrev FloatReader := ℚ → ℚ

/-- How a type is written and read back, and what an absent field of it stands for. -/
structure Codec (α : Type) where
  encode : α → Json
  decode : FloatReader → Json → Option α
  missing : Option α
  /-- What comes back of a value. -/
  back : FloatReader → α → α
  decode_encode : ∀ reread a, decode reread (encode a) = some (back reread a)

namespace Codec
variable {α : Type}

/-- A machine integer, refused outside its range. -/
def integer (toInt : α → Int) (ofInt : Int → Option α) (h : ∀ a, ofInt (toInt a) = some a) : Codec α where
  encode a := .int (toInt a)
  decode _
    | .int n => ofInt n
    | _ => none
  missing := none
  back _ a := a
  decode_encode _ := h

def i32 : Codec Int32 :=
  integer Int32.toInt
    (fun n => if Int32.minValue.toInt ≤ n ∧ n ≤ Int32.maxValue.toInt then some (.ofInt n) else none)
    fun a => by
      rw [if_pos ⟨Int32.le_iff_toInt_le.mp (Int32.minValue_le a),
        Int32.le_iff_toInt_le.mp (Int32.le_maxValue a)⟩, Int32.ofInt_toInt]

def i64 : Codec Int64 :=
  integer Int64.toInt
    (fun n => if Int64.minValue.toInt ≤ n ∧ n ≤ Int64.maxValue.toInt then some (.ofInt n) else none)
    fun a => by
      rw [if_pos ⟨Int64.le_iff_toInt_le.mp (Int64.minValue_le a),
        Int64.le_iff_toInt_le.mp (Int64.le_maxValue a)⟩, Int64.ofInt_toInt]

def u32 : Codec UInt32 :=
  integer (fun a => a.toNat)
    (fun n => if 0 ≤ n ∧ n.toNat < UInt32.size then some (.ofNat n.toNat) else none)
    fun a => by simp [a.toNat_lt_size]

def u64 : Codec UInt64 :=
  integer (fun a => a.toNat)
    (fun n => if 0 ≤ n ∧ n.toNat < UInt64.size then some (.ofNat n.toNat) else none)
    fun a => by simp [a.toNat_lt_size]

/-- A finite f64; its text is read back by the parser. -/
def f64 : Codec ℚ where
  encode q := .float q
  decode reread
    | .float q => some (reread q)
    | .int n => some n
    | _ => none
  missing := none
  back reread := reread
  decode_encode _ _ := rfl

def string : Codec String where
  encode s := .str s
  decode _
    | .str s => some s
    | _ => none
  missing := none
  back _ s := s
  decode_encode _ _ := rfl

/-- A character is a string of one. -/
def char : Codec Char where
  encode c := .str (String.ofList [c])
  decode _
    | .str s => match s.toList with
      | [c] => some c
      | _ => none
    | _ => none
  missing := none
  back _ c := c
  decode_encode _ c := by simp

def list (c : Codec α) : Codec (List α) where
  encode l := .arr (l.map c.encode)
  decode reread
    | .arr items => items.mapM (c.decode reread)
    | _ => none
  missing := none
  back reread := List.map (c.back reread)
  decode_encode reread l := by
    induction l with
    | nil => rfl
    | cons a l ih =>
      simp only [List.map_cons, List.mapM_cons, c.decode_encode] at ih ⊢
      simp [ih]

/-- An absent field reads as none, like null. -/
def option (c : Codec α) (h : ∀ a, (c.encode a).isNull = false) : Codec (Option α) where
  encode
    | none => .null
    | some a => c.encode a
  decode reread v := if v.isNull then some none else (c.decode reread v).map some
  missing := some none
  back reread := Option.map (c.back reread)
  decode_encode reread a := by
    cases a with
    | none => rfl
    | some a => simp [h a, c.decode_encode]

/-- The value of a field that may be absent. -/
def slot (c : Codec α) (reread : FloatReader) : Option Json → Option α
  | none => c.missing
  | some v => c.decode reread v

end Codec

/-- The fields of a struct, in the order of their declaration. -/
structure Record (α : Type) where
  names : List String
  write : α → List Json
  read : FloatReader → List (Option Json) → Option α
  back : FloatReader → α → α
  nodup : names.Nodup
  length_write : ∀ a, (write a).length = names.length
  read_write : ∀ reread a, read reread ((write a).map some) = some (back reread a)

namespace Record
variable {α β : Type}

def nil : Record Unit where
  names := []
  write _ := []
  read _
    | [] => some ()
    | _ => none
  back _ a := a
  nodup := .nil
  length_write _ := rfl
  read_write _ _ := rfl

def field (name : String) (c : Codec α) (rest : Record β) (h : name ∉ rest.names := by decide) :
    Record (α × β) where
  names := name :: rest.names
  write p := c.encode p.1 :: rest.write p.2
  read reread
    | [] => none
    | first :: others => do
      let a ← c.slot reread first
      let b ← rest.read reread others
      some (a, b)
  back reread p := (c.back reread p.1, rest.back reread p.2)
  nodup := List.nodup_cons.mpr ⟨h, rest.nodup⟩
  length_write p := by simp [rest.length_write]
  read_write reread p := by simp [Codec.slot, c.decode_encode, rest.read_write]

def pack (r : Record α) (pack : α → β) (unpack : β → α) : Record β where
  names := r.names
  write b := r.write (unpack b)
  read reread slots := (r.read reread slots).map pack
  back reread b := pack (r.back reread (unpack b))
  nodup := r.nodup
  length_write b := r.length_write (unpack b)
  read_write reread b := by simp [r.read_write]

/-- Unknown keys are skipped, a known one may not stand twice; an array gives the fields in order. -/
def decode (r : Record α) (reread : FloatReader) : Json → Option α
  | .obj entries =>
    if ∀ name ∈ r.names, (entries.map (·.1)).count name ≤ 1 then
      r.read reread (r.names.map fun name => entries.lookup name)
    else none
  | .arr items => if items.length = r.names.length then r.read reread (items.map some) else none
  | _ => none

def encode (r : Record α) (a : α) : Json := .obj (r.names.zip (r.write a))

theorem map_lookup_zip {names : List String} {values : List Json} (hn : names.Nodup)
    (hl : values.length = names.length) :
    names.map (fun name => (names.zip values).lookup name) = values.map some := by
  induction names generalizing values with
  | nil => simp_all
  | cons name names ih =>
    cases values with
    | nil => cases hl
    | cons value values =>
      obtain ⟨hname, hn⟩ := List.nodup_cons.mp hn
      have hrest : names.map (fun n => (((name :: names).zip (value :: values)).lookup n)) =
          names.map fun n => (names.zip values).lookup n := by
        apply List.map_congr_left
        intro n hm
        have hne : (n == name) = false := by
          simp only [beq_eq_false_iff_ne]
          rintro rfl
          exact hname hm
        rw [List.zip_cons_cons, List.lookup_cons, hne]
      rw [List.map_cons, hrest, ih hn (by simpa using hl), List.map_cons, List.zip_cons_cons,
        List.lookup_cons_self]

theorem decode_encode (r : Record α) (reread : FloatReader) (a : α) :
    r.decode reread (r.encode a) = some (r.back reread a) := by
  have hkeys : ((r.names.zip (r.write a)).map (·.1)) = r.names :=
    List.map_fst_zip (r.length_write a).ge
  rw [encode, decode, hkeys, if_pos fun name _ => List.nodup_iff_count_le_one.mp r.nodup name,
    map_lookup_zip r.nodup (r.length_write a), r.read_write]

def codec (r : Record α) : Codec α where
  encode := r.encode
  decode := r.decode
  missing := none
  back := r.back
  decode_encode := r.decode_encode

/-- Without this field there is no value. -/
def Requires (r : Record α) (name : String) : Prop :=
  ∀ reread, ∀ lookup : String → Option Json, lookup name = none → r.read reread (r.names.map lookup) = none

theorem requires_field {name : String} {c : Codec α} {rest : Record β} {h : name ∉ rest.names}
    (hc : c.missing = none) : (field name c rest h).Requires name := by
  intro reread lookup hnone
  simp [field, hnone, Codec.slot, hc]

theorem Requires.field {name other : String} {c : Codec α} {rest : Record β} {h : name ∉ rest.names}
    (hr : rest.Requires other) : (field name c rest h).Requires other := by
  intro reread lookup hnone
  simp [Record.field, hr reread lookup hnone]

theorem Requires.pack {r : Record α} {name : String} (hr : r.Requires name) {pack : α → β}
    {unpack : β → α} : (r.pack pack unpack).Requires name := by
  intro reread lookup hnone
  simp [Record.pack, hr reread lookup hnone]

/-- An object without a field that must be there is refused. -/
theorem decode_eq_none {r : Record α} {name : String} (hr : r.Requires name) (reread : FloatReader)
    {entries : List (String × Json)} (h : entries.lookup name = none) : r.decode reread (.obj entries) = none := by
  rw [decode, hr reread (fun n => entries.lookup n) h, ite_self]

end Record

end ProcessExplorer.Library
