/-!
# Tables

A finite map that keeps its entries in the order in which their keys first came in. The view is
`get?`: `get?_insert` and `get?_erase` say what the two writers do to it, `get?_eq_none_iff` ties
it to the key list, and `size_insert`, `size_erase` count. With the order of the entries, a writer is
undone by the next (`insert_insert`, `erase_insert`).
-/

set_option autoImplicit false

namespace Saga

/-- A finite map in insertion order; no key occurs twice. -/
structure Table (κ α : Type) where
  entries : List (κ × α)
  nodup : (entries.map Prod.fst).Nodup

namespace Table

variable {κ α : Type} [DecidableEq κ]

/-! ## Lists of entries -/

/-- The value of the first entry for `k`. -/
def find (k : κ) : List (κ × α) → Option α
  | [] => none
  | e :: es => if e.1 = k then some e.2 else find k es

/-- Replaces the entry for `k` where it stands, or adds one at the end. -/
def put (k : κ) (a : α) : List (κ × α) → List (κ × α)
  | [] => [(k, a)]
  | e :: es => if e.1 = k then (k, a) :: es else e :: put k a es

theorem map_fst_put (k : κ) (a : α) (es : List (κ × α)) :
    (put k a es).map Prod.fst =
      if k ∈ es.map Prod.fst then es.map Prod.fst else es.map Prod.fst ++ [k] := by
  induction es with
  | nil => rfl
  | cons e es ih =>
    by_cases h : e.1 = k
    · simp [put, h]
    · have h' : ¬ k = e.1 := fun hk => h hk.symm
      simp only [put, h, if_false, List.map_cons, ih, List.mem_cons, h', false_or]
      split <;> simp

theorem nodup_put {k : κ} {a : α} {es : List (κ × α)} (h : (es.map Prod.fst).Nodup) :
    ((put k a es).map Prod.fst).Nodup := by
  rw [map_fst_put]
  split
  · exact h
  · rename_i hk
    exact List.nodup_append.2 ⟨h, by simp, fun x hx y hy => by
      rw [List.mem_singleton.1 hy]; exact fun hxy => hk (hxy ▸ hx)⟩

omit [DecidableEq κ] in
theorem nodup_filter {es : List (κ × α)} (p : κ × α → Bool) (h : (es.map Prod.fst).Nodup) :
    ((es.filter p).map Prod.fst).Nodup :=
  h.sublist (List.filter_sublist.map _)

theorem find_put (k k' : κ) (a : α) (es : List (κ × α)) :
    find k' (put k a es) = if k = k' then some a else find k' es := by
  induction es with
  | nil => rfl
  | cons e es ih =>
    by_cases h : e.1 = k
    · by_cases h' : k = k' <;> simp [put, find, h, h']
    · by_cases h' : e.1 = k'
      · have : ¬ k = k' := fun hk => h (h'.trans hk.symm)
        simp [put, find, h', this, Ne.symm this]
      · simp [put, find, h, h', ih]

theorem find_filter_ne (k k' : κ) (es : List (κ × α)) :
    find k' (es.filter fun e => e.1 ≠ k) = if k = k' then none else find k' es := by
  induction es with
  | nil => simp [find]
  | cons e es ih =>
    by_cases h : e.1 = k
    · rw [List.filter_cons_of_neg (by simp [h]), ih]
      by_cases h' : k = k'
      · simp [h']
      · simp [find, h, h']
    · rw [List.filter_cons_of_pos (by simp [h]), find, find, ih]
      by_cases h' : e.1 = k'
      · have : ¬ k = k' := fun hk => h (h'.trans hk.symm)
        simp [h', this]
      · simp [h']

theorem find_eq_none_iff {k : κ} {es : List (κ × α)} :
    find k es = none ↔ k ∉ es.map Prod.fst := by
  induction es with
  | nil => simp [find]
  | cons e es ih =>
    by_cases h : e.1 = k
    · simp [find, h]
    · have h' : ¬ k = e.1 := fun hk => h hk.symm
      simp only [find, h, if_false, ih, List.map_cons, List.mem_cons, h', false_or]

theorem put_of_find_eq_none {k : κ} {es : List (κ × α)} (h : find k es = none) (a : α) :
    put k a es = es ++ [(k, a)] := by
  induction es with
  | nil => rfl
  | cons e es ih =>
    by_cases hk : e.1 = k
    · simp [find, hk] at h
    · rw [find, if_neg hk] at h
      rw [put, if_neg hk, ih h]
      rfl

theorem filter_ne_of_find_eq_none {k : κ} {es : List (κ × α)} (h : find k es = none) :
    (es.filter fun e => e.1 ≠ k) = es := by
  refine List.filter_eq_self.2 fun e he => ?_
  have hk : e.1 ≠ k := fun hk => find_eq_none_iff.1 h (List.mem_map.2 ⟨e, he, hk⟩)
  exact decide_eq_true hk

theorem put_put (k : κ) (a b : α) (es : List (κ × α)) : put k b (put k a es) = put k b es := by
  induction es with
  | nil => simp [put]
  | cons e es ih => by_cases hk : e.1 = k <;> simp [put, hk, ih]

theorem find_of_mem {k : κ} {a : α} {es : List (κ × α)} (hn : (es.map Prod.fst).Nodup)
    (h : (k, a) ∈ es) : find k es = some a := by
  induction es with
  | nil => cases h
  | cons e es ih =>
    rw [List.map_cons, List.nodup_cons] at hn
    rcases List.mem_cons.1 h with rfl | h
    · simp [find]
    · have hk : e.1 ≠ k := fun hk => hn.1 (hk ▸ List.mem_map_of_mem h)
      rw [find, if_neg hk, ih hn.2 h]

/-- Without the entry for `k` its value occurs once less. -/
theorem count_filter_ne [DecidableEq α] {k : κ} {a : α} {es : List (κ × α)}
    (hn : (es.map Prod.fst).Nodup) (h : find k es = some a) (b : α) :
    ((es.filter fun e => e.1 ≠ k).map Prod.snd).count b + (if a = b then 1 else 0) =
      (es.map Prod.snd).count b := by
  induction es with
  | nil => cases h
  | cons e es ih =>
    rw [List.map_cons, List.nodup_cons] at hn
    by_cases hk : e.1 = k
    · rw [find, if_pos hk, Option.some.injEq] at h
      have hes : find k es = none := find_eq_none_iff.2 (hk ▸ hn.1)
      rw [List.filter_cons_of_neg (by simp [hk]), filter_ne_of_find_eq_none hes, List.map_cons,
        List.count_cons, h]
      by_cases hab : a = b <;> simp [hab]
    · rw [find, if_neg hk] at h
      have := ih hn.2 h
      rw [List.filter_cons_of_pos (by simp [hk]), List.map_cons, List.map_cons, List.count_cons,
        List.count_cons]
      omega

/-! ## Tables -/

def empty : Table κ α := ⟨[], List.nodup_nil⟩

instance : EmptyCollection (Table κ α) := ⟨empty⟩

instance : Inhabited (Table κ α) := ⟨empty⟩

def get? (t : Table κ α) (k : κ) : Option α := find k t.entries

def contains (t : Table κ α) (k : κ) : Bool := (t.get? k).isSome

/-- Puts `a` under `k`; a key that is there keeps its place. -/
def insert (t : Table κ α) (k : κ) (a : α) : Table κ α :=
  ⟨put k a t.entries, nodup_put t.nodup⟩

def erase (t : Table κ α) (k : κ) : Table κ α :=
  ⟨t.entries.filter fun e => e.1 ≠ k, nodup_filter _ t.nodup⟩

def modify (t : Table κ α) (k : κ) (f : α → α) : Table κ α :=
  match t.get? k with
  | some a => t.insert k (f a)
  | none => t

def mapValues {β : Type} (t : Table κ α) (f : α → β) : Table κ β :=
  ⟨t.entries.map fun e => (e.1, f e.2), by
    rw [List.map_map]; exact t.nodup⟩

def keys (t : Table κ α) : List κ := t.entries.map Prod.fst

def values (t : Table κ α) : List α := t.entries.map Prod.snd

def size (t : Table κ α) : Nat := t.entries.length

/-! ## What the operations do to the view -/

omit [DecidableEq κ] in
theorem ext {t u : Table κ α} (h : t.entries = u.entries) : t = u := by
  cases t
  cases u
  cases h
  rfl

@[simp] theorem get?_empty (k : κ) : (∅ : Table κ α).get? k = none := rfl

omit [DecidableEq κ] in
@[simp] theorem size_empty : (∅ : Table κ α).size = 0 := rfl

theorem get?_insert (t : Table κ α) (k k' : κ) (a : α) :
    (t.insert k a).get? k' = if k = k' then some a else t.get? k' :=
  find_put k k' a t.entries

theorem get?_erase (t : Table κ α) (k k' : κ) :
    (t.erase k).get? k' = if k = k' then none else t.get? k' :=
  find_filter_ne k k' t.entries

theorem insert_insert (t : Table κ α) (k : κ) (a b : α) :
    (t.insert k a).insert k b = t.insert k b :=
  ext (put_put k a b t.entries)

/-- Whatever is put under a new key goes with it. -/
theorem erase_insert {t : Table κ α} {k : κ} (h : t.get? k = none) (a : α) :
    (t.insert k a).erase k = t := by
  apply ext
  show (put k a t.entries).filter _ = t.entries
  rw [put_of_find_eq_none h, List.filter_append, filter_ne_of_find_eq_none h]
  simp

theorem get?_eq_none_iff {t : Table κ α} {k : κ} : t.get? k = none ↔ k ∉ t.keys :=
  find_eq_none_iff

theorem get?_modify (t : Table κ α) (k k' : κ) (f : α → α) :
    (t.modify k f).get? k' = if k = k' then (t.get? k').map f else t.get? k' := by
  unfold modify
  cases h : t.get? k with
  | none =>
    by_cases hk : k = k'
    · subst hk; simp [h]
    · simp [hk]
  | some a =>
    by_cases hk : k = k'
    · subst hk; simp [get?_insert, h]
    · simp [get?_insert, hk]

theorem get?_mapValues {β : Type} (t : Table κ α) (f : α → β) (k : κ) :
    (t.mapValues f).get? k = (t.get? k).map f := by
  simp only [get?, mapValues]
  induction t.entries with
  | nil => rfl
  | cons e es ih => by_cases h : e.1 = k <;> simp [find, h, ih]

theorem keys_insert (t : Table κ α) (k : κ) (a : α) :
    (t.insert k a).keys = if k ∈ t.keys then t.keys else t.keys ++ [k] :=
  map_fst_put k a t.entries

omit [DecidableEq κ] in
theorem size_eq_length_keys (t : Table κ α) : t.size = t.keys.length := by
  simp [size, keys]

theorem size_insert (t : Table κ α) (k : κ) (a : α) :
    (t.insert k a).size = if k ∈ t.keys then t.size else t.size + 1 := by
  rw [size_eq_length_keys, keys_insert, size_eq_length_keys]
  split <;> simp

theorem keys_erase (t : Table κ α) (k : κ) : (t.erase k).keys = t.keys.erase k := by
  rw [List.Nodup.erase_eq_filter (show t.keys.Nodup from t.nodup)]
  simp only [keys, erase, List.filter_map]
  congr 1
  exact List.filter_congr fun e _ => by by_cases h : e.1 = k <;> simp [h]

theorem mem_keys_of_get? {t : Table κ α} {k : κ} {a : α} (h : t.get? k = some a) : k ∈ t.keys :=
  Decidable.not_not.1 fun hn => by
    rw [get?_eq_none_iff.2 hn] at h
    cases h

theorem size_erase {t : Table κ α} {k : κ} {a : α} (h : t.get? k = some a) :
    (t.erase k).size + 1 = t.size := by
  have hk : k ∈ t.keys := mem_keys_of_get? h
  have hpos : 0 < t.keys.length := List.length_pos_of_mem hk
  rw [size_eq_length_keys, keys_erase, List.length_erase_of_mem hk, size_eq_length_keys]
  omega

theorem values_insert {t : Table κ α} {k : κ} (h : t.get? k = none) (a : α) :
    (t.insert k a).values = t.values ++ [a] := by
  have hput : put k a t.entries = t.entries ++ [(k, a)] := put_of_find_eq_none h a
  simp [values, insert, hput]

theorem count_values_erase [DecidableEq α] {t : Table κ α} {k : κ} {a : α}
    (h : t.get? k = some a) (b : α) :
    (t.erase k).values.count b + (if a = b then 1 else 0) = t.values.count b :=
  count_filter_ne t.nodup h b

theorem exists_get?_of_mem_values {t : Table κ α} {a : α} (h : a ∈ t.values) :
    ∃ k, t.get? k = some a := by
  obtain ⟨⟨k, a⟩, he, rfl⟩ := List.mem_map.1 h
  exact ⟨k, find_of_mem t.nodup he⟩

theorem count_values_pos [DecidableEq α] {t : Table κ α} {k : κ} {a : α} (h : t.get? k = some a) :
    0 < t.values.count a := by
  have := count_values_erase h a
  rw [if_pos rfl] at this
  omega

omit [DecidableEq κ] in
theorem size_mapValues {β : Type} (t : Table κ α) (f : α → β) : (t.mapValues f).size = t.size :=
  List.length_map _

theorem size_eq_zero_iff {t : Table κ α} : t.size = 0 ↔ ∀ k, t.get? k = none := by
  simp only [get?_eq_none_iff, size_eq_length_keys, List.length_eq_zero_iff,
    List.eq_nil_iff_forall_not_mem]

end Table

end Saga
