import Mathlib.Data.List.DropRight
import Saga.Text.Blank

/-!
# Facts about texts

No piece of a text that is cut holds the separator, nor anything but what was cut
(`not_mem_of_mem_splitOn`, `mem_of_mem_splitOn`). A number is told by its digits (`toDigits_inj`).
Trimming gives a text that is `Trimmed`, and leaves such a text as it is (`trimmed_trim`,
`Trimmed.trim_eq`). A text of ASCII characters has one byte for each of them (`utf8_of_ascii`), and
no other text has only bytes of ASCII (`lt_of_mem_of_utf8`).
-/

set_option autoImplicit false

namespace Saga.Text

/-! ## Cutting -/

theorem not_mem_of_mem_splitOn {sep : Char} {l p : List Char} (h : p ∈ l.splitOn sep) :
    sep ∉ p := by
  induction l generalizing p with
  | nil =>
    rw [List.splitOn_nil, List.mem_singleton] at h
    simp [h]
  | cons c l ih =>
    obtain ⟨q, qs, hq⟩ := List.exists_cons_of_ne_nil (List.splitOn_ne_nil sep l)
    rw [List.splitOn_cons_eq_if_modifyHead] at h
    rw [hq] at h ih
    split at h
    · rcases List.mem_cons.1 h with rfl | h
      · exact List.not_mem_nil
      · exact ih h
    · rename_i hc
      rcases List.mem_cons.1 h with rfl | h
      · have hsep : sep ≠ c := fun e => hc (by simp [e])
        exact List.not_mem_cons_of_ne_of_not_mem hsep (ih List.mem_cons_self)
      · exact ih (List.mem_cons_of_mem _ h)

/-- A piece holds nothing but what was cut. -/
theorem mem_of_mem_splitOn {sep c : Char} {l p : List Char} (hp : p ∈ l.splitOn sep) (hc : c ∈ p) :
    c ∈ l := by
  induction l generalizing p with
  | nil =>
    rw [List.splitOn_nil, List.mem_singleton] at hp
    exact hp ▸ hc
  | cons d l ih =>
    obtain ⟨q, qs, hq⟩ := List.exists_cons_of_ne_nil (List.splitOn_ne_nil sep l)
    rw [List.splitOn_cons_eq_if_modifyHead] at hp
    rw [hq] at hp ih
    split at hp
    · rcases List.mem_cons.1 hp with rfl | hp
      · cases hc
      · exact List.mem_cons_of_mem _ (ih hp hc)
    · rcases List.mem_cons.1 hp with rfl | hp
      · rcases List.mem_cons.1 hc with rfl | hc
        · exact List.mem_cons_self
        · exact List.mem_cons_of_mem _ (ih List.mem_cons_self hc)
      · exact List.mem_cons_of_mem _ (ih (List.mem_cons_of_mem _ hp) hc)

/-! ## Numbers -/

theorem toDigits_inj {m n : Nat} (h : Nat.toDigits 10 m = Nat.toDigits 10 n) : m = n := by
  rw [← Nat.ofDigitChars_toDigits (b := 10) (n := m) (by decide) (by decide), h]
  exact Nat.ofDigitChars_toDigits (by decide) (by decide)

/-! ## Trimming -/

/-- What runs is built without Mathlib; here its lemmas about `List.rdropWhile` apply. -/
theorem dropEndWhile_eq {α : Type} (p : α → Bool) (l : List α) :
    dropEndWhile p l = l.rdropWhile p := rfl

theorem mem_of_mem_trim {c : Char} {l : List Char} (h : c ∈ trim l) : c ∈ l :=
  (List.dropWhile_sublist _).subset ((List.rdropWhile_prefix isBlank _).subset h)

/-- There is no white space at either end. -/
def Trimmed (l : List Char) : Prop :=
  (∀ c ∈ l.head?, isBlank c = false) ∧ ∀ c ∈ l.getLast?, isBlank c = false

instance (l : List Char) : Decidable (Trimmed l) :=
  decidable_of_iff
    ((l.head?.all fun c => !isBlank c) = true ∧ (l.getLast?.all fun c => !isBlank c) = true)
    (by simp [Trimmed, Option.all_eq_true])

theorem trimmed_trim (l : List Char) : Trimmed (trim l) := by
  have hend : trim l = (l.dropWhile isBlank).rdropWhile isBlank := dropEndWhile_eq ..
  constructor
  · intro c hc
    obtain ⟨r, hr⟩ : trim l <+: l.dropWhile isBlank := hend ▸ List.rdropWhile_prefix ..
    have hhead := List.head?_dropWhile_not isBlank l
    rw [← hr, List.head?_append, Option.mem_def.1 hc] at hhead
    exact hhead
  · intro c hc
    obtain ⟨hne, rfl⟩ := List.mem_getLast?_eq_getLast hc
    rw [hend] at hne
    simpa [hend] using List.rdropWhile_last_not isBlank _ hne

theorem Trimmed.trim_eq {l : List Char} (h : Trimmed l) : trim l = l := by
  have hstart : l.dropWhile isBlank = l :=
    List.dropWhile_eq_self_iff.2 fun hl => by
      rw [h.1 l[0] (by simp [List.head?_eq_getElem?])]
      exact Bool.false_ne_true
  rw [trim, dropAround, hstart, dropEndWhile_eq, List.rdropWhile_eq_self_iff]
  intro hl
  rw [h.2 _ (List.getLast?_eq_some_getLast hl)]
  exact Bool.false_ne_true

/-! ## The bytes of a text -/

/-- The bytes of the UTF-8 form of a text. -/
def utf8 (s : String) : List UInt8 := s.toUTF8.data.toList

theorem utf8_eq (s : String) : utf8 s = s.toList.flatMap String.utf8EncodeChar := by
  rw [utf8, String.toUTF8, ← String.utf8Encode_toList, List.utf8Encode,
    List.toList_data_toByteArray]

theorem utf8EncodeChar_of_lt {c : Char} (h : c.toNat < 128) :
    String.utf8EncodeChar c = [UInt8.ofNat c.toNat] := by
  have hle : c.val.toNat ≤ 127 := Nat.le_of_lt_succ h
  simp only [String.utf8EncodeChar, hle, if_true]
  rfl

/-- A character beyond ASCII has a byte beyond ASCII. -/
theorem exists_byte_of_le {c : Char} (h : 128 ≤ c.toNat) :
    ∃ b ∈ String.utf8EncodeChar c, 128 ≤ b.toNat := by
  have hle : ¬ c.val.toNat ≤ 127 := Nat.not_le.2 h
  simp only [String.utf8EncodeChar, hle, if_false]
  have last : 128 ≤ (UInt8.ofNat (c.val.toNat % 64 + 128)).toNat := by
    rw [UInt8.toNat_ofNat']
    omega
  split
  · exact ⟨_, by simp, last⟩
  · split <;> exact ⟨_, by simp, last⟩

/-- A text whose bytes are ASCII has only characters of ASCII. -/
theorem lt_of_mem_of_utf8 {s : String} (h : ∀ b ∈ utf8 s, b.toNat < 128) {c : Char}
    (hc : c ∈ s.toList) : c.toNat < 128 := by
  refine Decidable.not_not.1 fun hlt => ?_
  obtain ⟨b, hb, hle⟩ := exists_byte_of_le (Nat.not_lt.1 hlt)
  have := h b (by rw [utf8_eq]; exact List.mem_flatMap.2 ⟨c, hc, hb⟩)
  omega

theorem utf8_of_ascii {s : String} (h : ∀ c ∈ s.toList, c.toNat < 128) :
    utf8 s = s.toList.map fun c => UInt8.ofNat c.toNat := by
  rw [utf8_eq]
  generalize s.toList = l at h
  induction l with
  | nil => rfl
  | cons c l ih =>
    rw [List.flatMap_cons, utf8EncodeChar_of_lt (h c List.mem_cons_self),
      ih fun d hd => h d (List.mem_cons_of_mem _ hd)]
    rfl

/-- The bytes of an ASCII text, taken as characters, are the text. -/
theorem map_ofNat_utf8 {s : String} (h : ∀ c ∈ s.toList, c.toNat < 128) :
    (utf8 s).map (fun b => Char.ofNat b.toNat) = s.toList := by
  rw [utf8_of_ascii h, List.map_map]
  refine (List.map_congr_left fun c hc => ?_).trans (List.map_id _)
  have hlt := h c hc
  rw [Function.comp_apply, UInt8.toNat_ofNat', Nat.mod_eq_of_lt (by omega), Char.ofNat_toNat]
  rfl

end Saga.Text
