import Mathlib.Data.List.Basic
import Mathlib.Data.List.TakeWhile
import Saga.Context.Headers
import Saga.Proofs.Texts

/-!
# Which ids the context header carries

Writing takes every byte that a value may store, reading only those that are text, and reading cuts
at commas and trims. An id that passes through both as one item is `ActionId.Portable`. Whatever is
read is portable (`portable_of_readContext`), and a portable id is read back from its bytes as
itself (`ActionId.Portable.listed_utf8`). So the lists of portable ids are exactly those that are read
as they were written (`codec_domain`).
-/

set_option autoImplicit false

namespace Saga

open Text

/-! ## Portable ids -/

namespace ActionId

/-- An id that is an item of its own in a header value: bytes that can be read, no comma, and no
white space at the ends. -/
structure Portable (id : ActionId) : Prop where
  nonempty : id.text ≠ ""
  readable : ∀ b ∈ utf8 id.text, b = 9 ∨ 32 ≤ b ∧ b ≤ 126
  single : ',' ∉ id.text.toList
  trimmed : Trimmed id.text.toList

instance (id : ActionId) : Decidable id.Portable :=
  decidable_of_iff
    (id.text ≠ "" ∧ ((utf8 id.text).all fun b => b == 9 || (32 ≤ b && b ≤ 126)) = true ∧
      ',' ∉ id.text.toList ∧ Trimmed id.text.toList)
    ⟨fun ⟨h₁, h₂, h₃, h₄⟩ => ⟨h₁, by simpa using h₂, h₃, h₄⟩,
      fun ⟨h₁, h₂, h₃, h₄⟩ => ⟨h₁, by simpa using h₂, h₃, h₄⟩⟩

theorem ofChars?_eq_some_iff {raw : List Char} {id : ActionId} :
    ofChars? raw = some id ↔ trim raw = id.text.toList ∧ id.text ≠ "" := by
  unfold ofChars?
  cases ht : trim raw with
  | nil =>
    simp only [reduceCtorEq, false_iff, not_and, Decidable.not_not]
    exact fun h => String.toList_eq_nil_iff.1 h.symm
  | cons c l =>
    simp only [Option.some.injEq]
    constructor
    · rintro rfl
      simp
    · rintro ⟨h, -⟩
      rw [h, String.ofList_toList]

end ActionId

namespace Headers

/-! ## Bytes -/

theorem isReadable_iff {b : UInt8} : isReadable b = true ↔ b = 9 ∨ 32 ≤ b ∧ b ≤ 126 := by
  have hlt : b < 127 ↔ b ≤ 126 := by
    rw [UInt8.lt_iff_toNat_lt, UInt8.le_iff_toNat_le]
    exact Nat.lt_succ_iff
  simp [isReadable, hlt]

theorem toNat_lt_of_isReadable {b : UInt8} (h : isReadable b = true) : b.toNat < 128 := by
  rcases isReadable_iff.1 h with rfl | ⟨-, hle⟩
  · decide
  · exact Nat.lt_succ_of_lt (Nat.lt_succ_of_le (UInt8.le_iff_toNat_le.1 hle))

theorem isStorable_of_isReadable {b : UInt8} (h : isReadable b = true) : isStorable b = true := by
  rcases isReadable_iff.1 h with rfl | ⟨hge, hle⟩
  · decide
  · have hne : b ≠ 127 := by
      rintro rfl
      exact absurd hle (by decide)
    simp [isStorable, hge, hne]

theorem toNat_ofNat_of_isReadable {b : UInt8} (h : isReadable b = true) :
    (Char.ofNat b.toNat).toNat = b.toNat := by
  have hall : ∀ n < 128, (Char.ofNat n).toNat = n := by decide
  exact hall b.toNat (toNat_lt_of_isReadable h)

/-! ## Reading -/

/-- The ids that one value lists. -/
def listed (value : List UInt8) : List ActionId :=
  ((value.map fun b => Char.ofNat b.toNat).splitOn ',').filterMap ActionId.ofChars?

theorem readValues_eq (values : List (List UInt8)) :
    readValues values =
      if values.all (List.all · isReadable) then .ok (values.flatMap listed)
      else .error .unreadable := by
  induction values with
  | nil => rfl
  | cons value values ih =>
    rw [readValues, ih, toChars, List.all_cons, List.flatMap_cons]
    cases value.all isReadable with
    | false => rfl
    | true => cases values.all (List.all · isReadable) <;> rfl

theorem readContext_eq (h : Headers) :
    h.readContext =
      if (h.getAll contextName).all (List.all · isReadable) then
        .ok ((h.getAll contextName).flatMap listed)
      else .error (.invalidHeader .unreadable) := by
  rw [readContext, readValues_eq]
  cases (h.getAll contextName).all (List.all · isReadable) <;> rfl

theorem eq_of_readContext_error {h : Headers} {e : ScopeError} (hr : h.readContext = .error e) :
    e = .invalidHeader .unreadable := by
  rw [readContext_eq] at hr
  split at hr
  · cases hr
  · cases hr
    rfl

/-- What is taken from a value that can be read is a piece of it without the white space around. -/
theorem portable_of_mem_listed {value : List UInt8} (hv : ∀ b ∈ value, isReadable b = true)
    {id : ActionId} (hid : id ∈ listed value) : id.Portable := by
  obtain ⟨piece, hpiece, hparse⟩ := List.mem_filterMap.1 hid
  obtain ⟨htrim, hne⟩ := ActionId.ofChars?_eq_some_iff.1 hparse
  have hmem : ∀ c ∈ id.text.toList, c ∈ piece := fun c hc => mem_of_mem_trim (htrim ▸ hc)
  have hbyte : ∀ c ∈ id.text.toList, ∃ b ∈ value, Char.ofNat b.toNat = c := fun c hc =>
    List.mem_map.1 (mem_of_mem_splitOn hpiece (hmem c hc))
  have hascii : ∀ c ∈ id.text.toList, c.toNat < 128 := by
    intro c hc
    obtain ⟨b, hb, rfl⟩ := hbyte c hc
    rw [toNat_ofNat_of_isReadable (hv b hb)]
    exact toNat_lt_of_isReadable (hv b hb)
  refine ⟨hne, fun b hb => ?_, fun hc => ?_, htrim ▸ trimmed_trim piece⟩
  · rw [utf8_of_ascii hascii] at hb
    obtain ⟨c, hc, rfl⟩ := List.mem_map.1 hb
    obtain ⟨b, hbv, rfl⟩ := hbyte c hc
    rw [toNat_ofNat_of_isReadable (hv b hbv), UInt8.ofNat_toNat]
    exact isReadable_iff.1 (hv b hbv)
  · exact not_mem_of_mem_splitOn hpiece (hmem ',' hc)

/-- Whatever the headers hold, the ids that are read from them are portable. -/
theorem portable_of_readContext {h : Headers} {ids : List ActionId} (hr : h.readContext = .ok ids) :
    ∀ id ∈ ids, id.Portable := by
  rw [readContext_eq] at hr
  split at hr
  · rename_i hall
    cases hr
    intro id hid
    obtain ⟨value, hvalue, hlisted⟩ := List.mem_flatMap.1 hid
    have hv := List.all_eq_true.1 hall value hvalue
    exact portable_of_mem_listed (List.all_eq_true.1 hv) hlisted
  · cases hr

end Headers

namespace ActionId.Portable

variable {id : ActionId}

theorem isReadable (h : id.Portable) : (utf8 id.text).all Headers.isReadable = true :=
  List.all_eq_true.2 fun b hb => Headers.isReadable_iff.2 (h.readable b hb)

theorem isStorable (h : id.Portable) : (utf8 id.text).all Headers.isStorable = true :=
  List.all_eq_true.2 fun b hb =>
    Headers.isStorable_of_isReadable (Headers.isReadable_iff.2 (h.readable b hb))

/-- The value that is written for a portable id lists this id. -/
theorem listed_utf8 (h : id.Portable) : Headers.listed (utf8 id.text) = [id] := by
  have hascii : ∀ c ∈ id.text.toList, c.toNat < 128 := fun c =>
    lt_of_mem_of_utf8 fun b hb =>
      Headers.toNat_lt_of_isReadable (Headers.isReadable_iff.2 (h.readable b hb))
  have hparse : ofChars? id.text.toList = some id :=
    ofChars?_eq_some_iff.2 ⟨h.trimmed.trim_eq, h.nonempty⟩
  rw [Headers.listed, map_ofNat_utf8 hascii, List.splitOn_eq_singleton h.single]
  simp [hparse]

end ActionId.Portable

namespace Headers

/-! ## Writing -/

theorem getAll_remove (h : Headers) (name name' : String) :
    (h.remove name).getAll name' = if name' = name then [] else h.getAll name' := by
  rw [getAll, remove, List.filterMap_filter]
  by_cases hn : name' = name
  · subst hn
    rw [if_pos rfl, List.filterMap_eq_nil_iff]
    intro e _
    by_cases he : e.1 = name' <;> simp [he]
  · rw [if_neg hn, getAll]
    refine List.filterMap_congr fun e _ => ?_
    by_cases he : e.1 = name'
    · simp [he, hn]
    · simp [he]

/-- The values of a name among fields that are added for the context. -/
theorem getAll_context (values : List (List UInt8)) (name : String) :
    getAll ⟨values.map fun value => (contextName, value)⟩ name =
      if name = contextName then values else [] := by
  rw [getAll, List.filterMap_map]
  by_cases hn : name = contextName
  · subst hn
    simp
  · simp [hn, Ne.symm hn]

/-- Can a value hold the id? -/
def isWritable (id : ActionId) : Bool := (utf8 id.text).all isStorable

/-- The ids are written up to the first that no value can hold. -/
theorem appendContext_eq (ids : List ActionId) (h : Headers) :
    appendContext ids h =
      (if ids.all isWritable then .ok () else .error (.invalidHeader .unstorable),
        ⟨h.fields ++ ((ids.takeWhile isWritable).map fun id => utf8 id.text).map
          fun value => (contextName, value)⟩) := by
  induction ids generalizing h with
  | nil => simp [appendContext]
  | cons id ids ih =>
    have hvalue : ofText id.text =
        if isWritable id then .ok (utf8 id.text) else .error .unstorable := rfl
    rw [appendContext, hvalue]
    cases hw : isWritable id with
    | false => simp [hw]
    | true => simp [hw, ih, append]

theorem writeContext_fst (h : Headers) (ids : List ActionId) :
    (h.writeContext ids).1 =
      if ids.all isWritable then .ok () else .error (.invalidHeader .unstorable) := by
  rw [writeContext, appendContext_eq]

/-- What is in the headers after the ids were written, whether or not that succeeded. -/
theorem getAll_writeContext (h : Headers) (ids : List ActionId) (name : String) :
    (h.writeContext ids).2.getAll name =
      if name = contextName then (ids.takeWhile isWritable).map fun id => utf8 id.text
      else h.getAll name := by
  have hadded := getAll_context ((ids.takeWhile isWritable).map fun id => utf8 id.text) name
  have hkept := h.getAll_remove contextName name
  rw [getAll] at hadded hkept
  rw [writeContext, appendContext_eq, getAll, List.filterMap_append, hadded, hkept]
  by_cases hn : name = contextName <;> simp [hn]

/-- **Portable ids come back.** -/
theorem readContext_writeContext (h : Headers) {ids : List ActionId}
    (hids : ∀ id ∈ ids, id.Portable) :
    (h.writeContext ids).1 = .ok () ∧ (h.writeContext ids).2.readContext = .ok ids := by
  have hwrite : ids.all isWritable = true :=
    List.all_eq_true.2 fun id hid => (hids id hid).isStorable
  have hvalues := h.getAll_writeContext ids contextName
  rw [if_pos rfl, List.takeWhile_eq_self_iff.2 (List.all_eq_true.1 hwrite)] at hvalues
  have hread : (ids.map fun id => utf8 id.text).all (List.all · isReadable) = true := by
    rw [List.all_map]
    exact List.all_eq_true.2 fun id hid => (hids id hid).isReadable
  have hlisted : ids.flatMap (fun id => listed (utf8 id.text)) = ids := by
    rw [List.flatMap_congr fun id hid => (hids id hid).listed_utf8]
    simp
  refine ⟨by rw [writeContext_fst, if_pos hwrite], ?_⟩
  rw [readContext_eq, hvalues, if_pos hread, List.flatMap_map, hlisted]

/-- **Which ids can be sent.** Whatever the headers held before, a list of ids is written and then
read back as it was exactly if each of them is portable: not empty, of visible characters of ASCII,
spaces and tabs only, without a comma and without white space at the ends. Otherwise the writing
fails, or the reading does, or other ids are read. -/
theorem codec_domain (h : Headers) (ids : List ActionId) :
    ((h.writeContext ids).1 = .ok () ∧ (h.writeContext ids).2.readContext = .ok ids ↔
      ∀ id ∈ ids, id.Portable) ∧
    ((∃ id ∈ ids, ¬ id.Portable) ↔
      (h.writeContext ids).1 = .error (.invalidHeader .unstorable) ∨
      (h.writeContext ids).2.readContext = .error (.invalidHeader .unreadable) ∨
      ∃ others, (h.writeContext ids).2.readContext = .ok others ∧ others ≠ ids) := by
  have hdomain : (h.writeContext ids).1 = .ok () ∧ (h.writeContext ids).2.readContext = .ok ids ↔
      ∀ id ∈ ids, id.Portable :=
    ⟨fun hr => portable_of_readContext hr.2, readContext_writeContext h⟩
  refine ⟨hdomain, ?_, ?_⟩
  · rintro ⟨id, hid, hnot⟩
    by_cases hw : ids.all isWritable = true
    · refine .inr ?_
      cases hr : (h.writeContext ids).2.readContext with
      | error e => exact .inl (congrArg _ (eq_of_readContext_error hr))
      | ok others =>
        refine .inr ⟨others, rfl, ?_⟩
        rintro rfl
        exact hnot (portable_of_readContext hr id hid)
    · exact .inl (by rw [writeContext_fst, if_neg hw])
  · intro hfail
    refine Decidable.not_not.1 fun hall => ?_
    obtain ⟨hw, hr⟩ := hdomain.2 fun id hid => Decidable.not_not.1 fun h => hall ⟨id, hid, h⟩
    rw [hw, hr] at hfail
    obtain hfail | hfail | ⟨others, hread, hne⟩ := hfail
    · cases hfail
    · cases hfail
    · exact hne (Except.ok.inj hread).symm

/-- Letters beyond ASCII can be written and not read; white space around an id is lost; an id with
a comma is read as two. -/
example :
    ¬ (⟨"café"⟩ : ActionId).Portable ∧ ¬ (⟨" tx"⟩ : ActionId).Portable ∧
      ¬ (⟨"a,b"⟩ : ActionId).Portable ∧ (⟨"http://c/lra?a b"⟩ : ActionId).Portable := by
  decide +kernel

end Headers

end Saga
