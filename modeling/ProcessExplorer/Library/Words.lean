import Mathlib.Data.List.DropRight
import Mathlib.Data.List.TakeWhile
import ProcessExplorer.Library.Text

/-! The words of a text: where they stand in it, and which texts have given words. -/
namespace ProcessExplorer.Library.Text

/-- Words that one blank or more would separate are found again. -/
theorem splitWhitespace_words (words : List Text) (h : ∀ w ∈ words, w ≠ [] ∧ ∀ c ∈ w, isWhitespace c = false)
    (first : Text) (hfirst : first ≠ []) (hf : ∀ c ∈ first, isWhitespace c = false) :
    splitWhitespace (first ++ words.flatMap (' ' :: ·)) = first :: words := by
  induction words generalizing first with
  | nil => simp [splitWhitespace, List.splitOnP_eq_singleton hf, hfirst]
  | cons w words ih =>
    obtain ⟨hw, hwords⟩ := List.forall_mem_cons.mp h
    have hrest := ih hwords w hw.1 hw.2
    rw [splitWhitespace] at hrest ⊢
    rw [List.flatMap_cons, List.cons_append, List.splitOnP_append_cons_of_forall_mem hf ' ' (by decide)]
    rw [List.filter_cons_of_pos (by simpa using hfirst), hrest]

theorem getLast?_words {words : List Text} (h : ∀ w ∈ words, w ≠ [] ∧ ∀ c ∈ w, isWhitespace c = false)
    (hne : words ≠ []) (first : Text) :
    ∀ c ∈ (first ++ words.flatMap (' ' :: ·)).getLast?, isWhitespace c = false := by
  obtain ⟨before, last, rfl⟩ := (List.eq_nil_or_concat' words).resolve_left hne
  obtain ⟨hlast, hchars⟩ := h last (by simp)
  intro c hc
  have hend : first ++ (before ++ [last]).flatMap (' ' :: ·) =
      (first ++ before.flatMap (' ' :: ·) ++ [' ']) ++ last := by simp
  rw [hend, List.getLast?_append_of_ne_nil _ hlast] at hc
  exact hchars c (List.mem_of_getLast? hc)

theorem trimEnd_append {t ending : Text} (hending : ∀ c ∈ ending, isWhitespace c = true)
    (ht : ∀ c ∈ t.getLast?, isWhitespace c = false) : trimEnd (t ++ ending) = t := by
  rw [trimEnd, List.reverse_append, List.dropWhile_append_of_pos (by simpa using hending)]
  cases hl : t.reverse with
  | nil => simpa using hl
  | cons c rest =>
    have hlast : isWhitespace c = false := ht c (by
      rw [← List.head?_reverse, hl]
      rfl)
    rw [List.dropWhile_cons_of_neg (by simp [hlast]), ← hl, List.reverse_reverse]

theorem splitWhitespace_append_cons {w : Text} {c : Char} (hw : IsWord w) (hc : isWhitespace c = true) (t : Text) :
    splitWhitespace (w ++ c :: t) = w :: splitWhitespace t := by
  rw [splitWhitespace, List.splitOnP_append_cons_of_forall_mem hw.2 c hc,
    List.filter_cons_of_pos (by simpa using hw.1)]
  rfl

/-- Words that a blank follows, each, and then any text. -/
theorem splitWhitespace_columns {words : List Text} (h : ∀ w ∈ words, IsWord w) (t : Text) :
    splitWhitespace (words.flatMap (· ++ [' ']) ++ t) = words ++ splitWhitespace t := by
  induction words with
  | nil => rfl
  | cons w words ih =>
    obtain ⟨hw, hwords⟩ := List.forall_mem_cons.mp h
    rw [List.flatMap_cons, List.append_assoc, List.append_assoc, List.singleton_append,
      splitWhitespace_append_cons hw (by decide), ih hwords, List.cons_append]

theorem splitWhitespace_cons {c : Char} (hc : isWhitespace c = true) (t : Text) :
    splitWhitespace (c :: t) = splitWhitespace t := by
  rw [splitWhitespace, List.splitOnP_cons_eq_if_modifyHead, if_pos hc, List.filter_cons_of_neg (by simp)]
  rfl

theorem splitWhitespace_blanks_append {blanks : Text} (h : ∀ c ∈ blanks, isWhitespace c = true) (t : Text) :
    splitWhitespace (blanks ++ t) = splitWhitespace t := by
  induction blanks with
  | nil => rfl
  | cons c blanks ih =>
    obtain ⟨hc, hblanks⟩ := List.forall_mem_cons.mp h
    rw [List.cons_append, splitWhitespace_cons hc, ih hblanks]

/-- Padding with blanks adds no word. -/
theorem splitWhitespace_replicate_append (n : Nat) (t : Text) :
    splitWhitespace (List.replicate n ' ' ++ t) = splitWhitespace t := by
  apply splitWhitespace_blanks_append
  intro c hc
  obtain rfl := List.eq_of_mem_replicate hc
  decide

/-- Columns of words are on one line. -/
theorem newline_notMem_columns {words : List Text} (h : ∀ w ∈ words, IsWord w) :
    '\n' ∉ words.flatMap (· ++ [' ']) := by
  intro hmem
  obtain ⟨w, hw, hc⟩ := List.mem_flatMap.mp hmem
  rcases List.mem_append.mp hc with hc | hc
  · have hvisible := (h w hw).2 _ hc
    cases hvisible
  · exact absurd (List.mem_singleton.mp hc) (by decide)

theorem splitWhitespace_concat {c : Char} (hc : isWhitespace c = true) (t : Text) :
    splitWhitespace (t ++ [c]) = splitWhitespace t := by
  rw [splitWhitespace, List.splitOnP_append_cons t [] hc]
  simp [splitWhitespace]

/-- A word at the right of a column that it may overflow. -/
def padLeft (width : Nat) (w : Text) : Text := List.replicate (width - w.length) ' ' ++ w

theorem splitWhitespace_padLeft_append (width : Nat) (w t : Text) :
    splitWhitespace (padLeft width w ++ t) = splitWhitespace (w ++ t) := by
  rw [padLeft, List.append_assoc, splitWhitespace_replicate_append]

/-- Columns of a width each, with a blank after every one. -/
def columns (cells : List (Nat × Text)) : Text := cells.flatMap fun cell => padLeft cell.1 cell.2 ++ [' ']

theorem splitWhitespace_columns_append {cells : List (Nat × Text)} (h : ∀ cell ∈ cells, IsWord cell.2) (t : Text) :
    splitWhitespace (columns cells ++ t) = cells.map Prod.snd ++ splitWhitespace t := by
  induction cells with
  | nil => rfl
  | cons cell cells ih =>
    obtain ⟨hcell, hcells⟩ := List.forall_mem_cons.mp h
    rw [columns, List.flatMap_cons, List.append_assoc, List.append_assoc, splitWhitespace_padLeft_append,
      List.singleton_append, splitWhitespace_append_cons hcell (by decide), ← columns, ih hcells, List.map_cons,
      List.cons_append]

theorem getLast?_columns {cells : List (Nat × Text)} (hne : cells ≠ []) : (columns cells).getLast? = some ' ' := by
  obtain ⟨before, last, rfl⟩ := (List.eq_nil_or_concat' cells).resolve_left hne
  have hend : columns (before ++ [last]) = (columns before ++ padLeft last.1 last.2) ++ [' '] := by simp [columns]
  rw [hend, List.getLast?_concat]

theorem newline_notMem_cells {cells : List (Nat × Text)} (h : ∀ cell ∈ cells, IsWord cell.2) :
    '\n' ∉ columns cells := by
  intro hmem
  obtain ⟨cell, hcell, hc⟩ := List.mem_flatMap.mp hmem
  simp only [padLeft, List.mem_append, List.mem_replicate, List.mem_singleton] at hc
  rcases hc with (⟨-, hc⟩ | hc) | hc
  · exact absurd hc (by decide)
  · have hvisible := (h cell hcell).2 _ hc
    cases hvisible
  · exact absurd hc (by decide)

theorem not_of_mem_splitOnP {p : Char → Bool} {w t : Text} (h : w ∈ t.splitOnP p) : ∀ c ∈ w, p c = false := by
  induction t generalizing w with
  | nil =>
    obtain rfl := List.mem_singleton.mp h
    exact fun c hc => absurd hc List.not_mem_nil
  | cons x t ih =>
    rw [List.splitOnP_cons_eq_if_modifyHead] at h
    split at h
    · rcases List.mem_cons.mp h with rfl | h
      · exact fun c hc => absurd hc List.not_mem_nil
      · exact ih h
    · rename_i hx
      obtain ⟨first, pieces, hpieces⟩ := List.exists_cons_of_ne_nil (List.splitOnP_ne_nil p t)
      rw [hpieces, List.modifyHead_cons] at h
      rcases List.mem_cons.mp h with rfl | h
      · exact List.forall_mem_cons.mpr ⟨by simpa using hx, ih (hpieces ▸ List.mem_cons_self)⟩
      · exact ih (hpieces ▸ List.mem_cons_of_mem _ h)

theorem mem_splitWhitespace {w t : Text} (h : w ∈ splitWhitespace t) : IsWord w := by
  obtain ⟨hmem, hne⟩ := List.mem_filter.mp h
  exact ⟨by simpa using hne, not_of_mem_splitOnP hmem⟩

theorem IsWord.append {w v : Text} (hw : IsWord w) (hv : IsWord v) : IsWord (w ++ v) :=
  ⟨List.append_ne_nil_of_left_ne_nil hw.1 v, List.forall_mem_append.mpr ⟨hw.2, hv.2⟩⟩

theorem IsWord.cons {w : Text} {c : Char} (hc : isWhitespace c = false) (hw : IsWord w) : IsWord (c :: w) :=
  ⟨List.cons_ne_nil c w, List.forall_mem_cons.mpr ⟨hc, hw.2⟩⟩

theorem isWord_ofInt (n : Int) : IsWord (ofInt n) :=
  ⟨ofInt_ne_nil n, fun _ => not_isWhitespace_of_mem_ofInt⟩

theorem not_isWhitespace_of_hexValue {c : Char} {d : Nat} (h : hexValue c = some d) : isWhitespace c = false := by
  have hlow : 48 ≤ c.toNat := by
    rw [hexValue] at h
    split at h
    · next hdigit =>
      rw [Char.isDigit, Bool.and_eq_true, decide_eq_true_eq, decide_eq_true_eq] at hdigit
      exact UInt32.le_iff_toNat_le.mp hdigit.1
    · split at h
      · next hlower => exact le_trans (by decide) hlower.1
      · split at h
        · next hupper => exact le_trans (by decide) hupper.1
        · cases h
  have hhigh := (hexValue_range h).2
  grind [isWhitespace]

theorem isWord_upperHex {width : Nat} (h : 0 < width) (n : Nat) : IsWord (upperHex width n) := by
  refine ⟨?_, fun c hc => ?_⟩
  · rw [← List.length_pos_iff, length_upperHex]
    exact h
  · obtain ⟨d, hd⟩ := hexValue_of_mem_upperHex hc
    exact not_isWhitespace_of_hexValue hd

theorem isWord_paddedHex (width n : Nat) : IsWord (paddedHex width n) := by
  refine ⟨paddedHex_ne_nil width n, fun c hc => ?_⟩
  obtain ⟨d, hd⟩ := hexValue_of_mem_paddedHex hc
  exact not_isWhitespace_of_hexValue hd

theorem splitWhitespace_of_isWord {w : Text} (hw : IsWord w) : splitWhitespace w = [w] := by
  simp [splitWhitespace, List.splitOnP_eq_singleton hw.2, hw.1]

theorem splitWhitespace_append {w rest : Text} (hw : IsWord w) (hrest : ∀ c ∈ rest.head?, isWhitespace c = true) :
    splitWhitespace (w ++ rest) = w :: splitWhitespace rest := by
  cases rest with
  | nil =>
    rw [List.append_nil, splitWhitespace_of_isWord hw]
    rfl
  | cons c rest =>
    have hc : isWhitespace c = true := hrest c rfl
    rw [splitWhitespace_append_cons hw hc, splitWhitespace_cons hc]

/-- A text starts with the characters up to its first white space. -/
theorem exists_run (t : Text) : ∃ v rest, t = v ++ rest ∧ (∀ c ∈ v, isWhitespace c = false) ∧
    ∀ c ∈ rest.head?, isWhitespace c = true := by
  induction t with
  | nil => exact ⟨[], [], rfl, List.forall_mem_nil _, by simp⟩
  | cons c t ih =>
    cases hc : isWhitespace c with
    | true => exact ⟨[], c :: t, rfl, List.forall_mem_nil _, by simpa using hc⟩
    | false =>
      obtain ⟨v, rest, rfl, hv, hrest⟩ := ih
      exact ⟨c :: v, rest, rfl, List.forall_mem_cons.mpr ⟨hc, hv⟩, hrest⟩

/-- Where the first word stands, and what follows it. -/
theorem splitWhitespace_eq_cons {t w : Text} {words : List Text} (h : splitWhitespace t = w :: words) :
    ∃ blanks rest, t = blanks ++ (w ++ rest) ∧ (∀ c ∈ blanks, isWhitespace c = true) ∧
      (∀ c ∈ rest.head?, isWhitespace c = true) ∧ splitWhitespace rest = words := by
  induction t with
  | nil => cases h
  | cons c t ih =>
    cases hc : isWhitespace c with
    | true =>
      rw [splitWhitespace_cons hc] at h
      obtain ⟨blanks, rest, rfl, hblanks, hrest, hwords⟩ := ih h
      exact ⟨c :: blanks, rest, rfl, List.forall_mem_cons.mpr ⟨hc, hblanks⟩, hrest, hwords⟩
    | false =>
      obtain ⟨v, rest, rfl, hv, hrest⟩ := exists_run t
      have hword : IsWord (c :: v) := ⟨List.cons_ne_nil c v, List.forall_mem_cons.mpr ⟨hc, hv⟩⟩
      have hsplit := splitWhitespace_append hword hrest
      rw [List.cons_append, h, List.cons.injEq] at hsplit
      obtain ⟨rfl, rfl⟩ := hsplit
      exact ⟨[], rest, rfl, List.forall_mem_nil _, hrest, rfl⟩

/-- A character of the words is first met in the first word that has it. -/
theorem exists_find_of_words {c : Char} (hc : isWhitespace c = false) {before after : Text} (hbefore : c ∉ before)
    {earlier later : List Text} (hearlier : ∀ w ∈ earlier, c ∉ w) {t : Text}
    (h : splitWhitespace t = earlier ++ (before ++ c :: after) :: later) :
    ∃ front back, t = front ++ c :: back ∧ c ∉ front ∧ splitWhitespace (c :: back) = (c :: after) :: later := by
  have hblank {blanks : Text} (hblanks : ∀ d ∈ blanks, isWhitespace d = true) : c ∉ blanks := by
    intro hmem
    cases hc.symm.trans (hblanks c hmem)
  induction earlier generalizing t with
  | nil =>
    rw [List.nil_append] at h
    have hword : IsWord (before ++ c :: after) := mem_splitWhitespace (h ▸ List.mem_cons_self)
    have hmarked : IsWord (c :: after) :=
      ⟨List.cons_ne_nil c after, fun d hd => hword.2 d (List.mem_append_right before hd)⟩
    obtain ⟨blanks, rest, rfl, hblanks, hrest, rfl⟩ := splitWhitespace_eq_cons h
    refine ⟨blanks ++ before, after ++ rest, by simp, ?_, splitWhitespace_append hmarked hrest⟩
    exact List.not_mem_append (hblank hblanks) hbefore
  | cons w earlier ih =>
    obtain ⟨hw, hothers⟩ := List.forall_mem_cons.mp hearlier
    obtain ⟨blanks, rest, rfl, hblanks, -, hrest⟩ := splitWhitespace_eq_cons h
    obtain ⟨front, back, rfl, hfront, hback⟩ := ih hothers hrest
    refine ⟨blanks ++ (w ++ front), back, by simp, ?_, hback⟩
    exact List.not_mem_append (hblank hblanks) (List.not_mem_append hw hfront)

theorem splitWhitespace_trimStart (t : Text) : splitWhitespace (trimStart t) = splitWhitespace t := by
  have hblanks : ∀ c ∈ t.takeWhile isWhitespace, isWhitespace c = true := fun c hc => List.mem_takeWhile_imp hc
  rw [trimStart, ← splitWhitespace_blanks_append hblanks, List.takeWhile_append_dropWhile]

theorem splitWhitespace_trimEnd (t : Text) : splitWhitespace (trimEnd t) = splitWhitespace t := by
  induction t using List.reverseRecOn with
  | nil => rfl
  | append_singleton t c ih =>
    cases hc : isWhitespace c with
    | true =>
      have htrim : trimEnd (t ++ [c]) = trimEnd t := by simp [trimEnd, hc]
      rw [htrim, ih, splitWhitespace_concat hc]
    | false =>
      have htrim : trimEnd (t ++ [c]) = t ++ [c] := by simp [trimEnd, hc]
      rw [htrim]

theorem splitWhitespace_trim (t : Text) : splitWhitespace (trim t) = splitWhitespace t := by
  rw [trim, splitWhitespace_trimEnd, splitWhitespace_trimStart]

theorem trim_of_isWord {w : Text} (hw : IsWord w) : trim w = w := by
  obtain ⟨c, rest, rfl⟩ := List.exists_cons_of_ne_nil hw.1
  have hc : isWhitespace c = false := hw.2 c List.mem_cons_self
  have hend := trimEnd_append (List.forall_mem_nil _) fun d hd => hw.2 d (List.mem_of_getLast? hd)
  rw [List.append_nil] at hend
  rw [trim, trimStart, List.dropWhile_cons_of_neg (by simp [hc]), hend]

theorem head?_trim (t : Text) : ∀ c ∈ (trim t).head?, isWhitespace c = false := by
  intro c hc
  obtain ⟨ending, hending⟩ := List.rdropWhile_prefix isWhitespace (trimStart t)
  have hstart : (trimStart t).head? = some c := by
    have hfirst : (List.rdropWhile isWhitespace (trimStart t)).head? = some c := hc
    rw [← hending, List.head?_append, hfirst]
    rfl
  have hnot := List.head?_dropWhile_not isWhitespace t
  rw [trimStart] at hstart
  rw [hstart] at hnot
  exact hnot

theorem eq_append_of_words {t w : Text} {words : List Text} (ht : ∀ c ∈ t.head?, isWhitespace c = false)
    (h : splitWhitespace t = w :: words) :
    ∃ rest, t = w ++ rest ∧ (∀ c ∈ rest.head?, isWhitespace c = true) ∧ splitWhitespace rest = words := by
  obtain ⟨blanks, rest, rfl, hblanks, hrest, hwords⟩ := splitWhitespace_eq_cons h
  cases blanks with
  | nil => exact ⟨rest, rfl, hrest, hwords⟩
  | cons c blanks => cases (ht c rfl).symm.trans (hblanks c List.mem_cons_self)

/-- Without the white space around it a text starts with its first word. -/
theorem trim_of_words {t w : Text} {words : List Text} (h : splitWhitespace t = w :: words) :
    ∃ rest, trim t = w ++ rest ∧ splitWhitespace rest = words := by
  obtain ⟨rest, htrim, -, hrest⟩ := eq_append_of_words (head?_trim t) ((splitWhitespace_trim t).trans h)
  exact ⟨rest, htrim, hrest⟩

/-- A text starts with what its first word starts with. -/
theorem isPrefix_iff_of_words {key t w : Text} {words : List Text} (hkey : ∀ c ∈ key, isWhitespace c = false)
    (ht : ∀ c ∈ t.head?, isWhitespace c = false) (h : splitWhitespace t = w :: words) : key <+: t ↔ key <+: w := by
  obtain ⟨rest, rfl, hrest, -⟩ := eq_append_of_words ht h
  constructor
  · intro hprefix
    rcases List.prefix_or_prefix_of_prefix hprefix (List.prefix_append w rest) with hw | ⟨more, hmore⟩
    · exact hw
    · rw [← hmore, List.prefix_append_right_inj] at hprefix
      cases more with
      | nil => rw [← hmore, List.append_nil]
      | cons c more =>
        obtain ⟨tail, htail⟩ := hprefix
        have hc : isWhitespace c = true := hrest c (by rw [← htail]; rfl)
        cases hc.symm.trans (hkey c (by simp [← hmore]))
  · exact fun hw => hw.trans (List.prefix_append w rest)

theorem splitWhitespace_cons_of_not {c : Char} (hc : isWhitespace c = false) (t : Text) :
    ∃ w words, splitWhitespace (c :: t) = (c :: w) :: words := by
  have hsplit : (c :: t).splitOnP isWhitespace = (t.splitOnP isWhitespace).modifyHead (List.cons c) := by
    rw [List.splitOnP_cons_eq_if_modifyHead, if_neg (by simp [hc])]
  obtain ⟨w, pieces, hpieces⟩ := List.exists_cons_of_ne_nil (List.splitOnP_ne_nil isWhitespace t)
  rw [splitWhitespace, hsplit, hpieces, List.modifyHead_cons, List.filter_cons_of_pos (by simp)]
  exact ⟨w, _, rfl⟩

theorem splitWhitespace_eq_nil {t : Text} (h : splitWhitespace t = []) : ∀ c ∈ t, isWhitespace c = true := by
  induction t with
  | nil => exact List.forall_mem_nil _
  | cons c t ih =>
    cases hc : isWhitespace c with
    | true => exact List.forall_mem_cons.mpr ⟨hc, ih ((splitWhitespace_cons hc t).symm.trans h)⟩
    | false =>
      obtain ⟨w, words, hwords⟩ := splitWhitespace_cons_of_not hc t
      cases h.symm.trans hwords

/-- What is left of a text with a single word is the word. -/
theorem trim_of_word {t w : Text} (h : splitWhitespace t = [w]) : trim t = w := by
  have hword : IsWord w := mem_splitWhitespace (h ▸ List.mem_singleton_self w)
  have hstart : ∀ c ∈ (trimStart t).head?, isWhitespace c = false := by
    intro c hc
    have hnot := List.head?_dropWhile_not isWhitespace t
    rw [trimStart] at hc
    rwa [hc] at hnot
  obtain ⟨rest, hrest, -, hnil⟩ := eq_append_of_words hstart ((splitWhitespace_trimStart t).trans h)
  rw [trim, hrest]
  exact trimEnd_append (splitWhitespace_eq_nil hnil) fun c hc => hword.2 c (List.mem_of_getLast? hc)

/-- A word in a column of the given width, with blanks behind it. -/
def padRight (width : Nat) (w : Text) : Text := w ++ List.replicate (width - w.length) ' '

theorem splitWhitespace_padRight_append {w : Text} (hw : IsWord w) (width : Nat) (t : Text) :
    splitWhitespace (padRight width w ++ ' ' :: t) = w :: splitWhitespace t := by
  have hblank : ∀ c ∈ (List.replicate (width - w.length) ' ' ++ ' ' :: t).head?, isWhitespace c = true := by
    cases width - w.length with
    | zero => simp; rfl
    | succ n => simp [List.replicate_succ]; rfl
  rw [padRight, List.append_assoc, splitWhitespace_append hw hblank, splitWhitespace_replicate_append,
    splitWhitespace_cons (by decide)]

theorem getLast?_padRight {width : Nat} {w : Text} (h : w.length < width) :
    (padRight width w).getLast? = some ' ' := by
  have hpos : width - w.length ≠ 0 := Nat.sub_ne_zero_of_lt h
  rw [padRight, List.getLast?_append, List.getLast?_replicate, if_neg hpos]
  rfl

theorem notMem_padRight {c : Char} {width : Nat} {w : Text} (hc : c ≠ ' ') (h : c ∉ w) : c ∉ padRight width w :=
  List.not_mem_append h fun hmem => hc (List.eq_of_mem_replicate hmem)

end ProcessExplorer.Library.Text
