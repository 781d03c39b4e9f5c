import Saga.Proofs.Links.CallbackUrl
import Saga.Proofs.Links.Entries

/-!
# Link headers are read back

The header value of a participant's links is cut at the commas, each entry at the semicolons. When
no URL holds one of them, an entry is read as the link that it was made of (`ofEntry?_entry`), and
the whole value as the links (`ofHeader_toHeader`). So the links that a participant advertises
arrive as they are, whatever its name is (`ofHeader_ofDescriptor`). No other links are ever read
(`separable_ofHeader`), so `header_round_trip` says exactly which come back.
-/

set_option autoImplicit false

namespace Saga

namespace Slots

variable {α : Type}

theorem get?_of_mem_toList {t : Slots α} {e : Operation × α} (h : e ∈ t.toList) :
    t.get? e.1 = some e.2 := by
  obtain ⟨op, -, he⟩ := List.mem_filterMap.1 h
  obtain ⟨a, ha, rfl⟩ := Option.map_eq_some_iff.1 he
  exact ha

theorem foldl_insert_toList (t : Slots α) :
    t.toList.foldl (fun t e => t.insert e.1 e.2) empty = t := by
  obtain ⟨a, b, c, d⟩ := t
  cases a <;> cases b <;> cases c <;> cases d <;> rfl

end Slots

namespace Links

open Text

/-! ## One entry -/

/-- The parameters of an entry. -/
theorem params_splitOn (op : Operation) :
    ((" rel=\"" ++ op.name ++ "\"; type=\"text/plain\"").toList.splitOn ';').map trim =
      [("rel=\"" ++ op.name ++ "\"").toList, "type=\"text/plain\"".toList] := by
  cases op <;> decide

theorem relation?_params (op : Operation) :
    relation? [("rel=\"" ++ op.name ++ "\"").toList, "type=\"text/plain\"".toList] =
      some op.name.toList := by
  cases op <;> decide

theorem entry_toList (op : Operation) (url : String) :
    (entry op url).toList = '<' :: (url.toList ++ ['>']) ++
      ';' :: (" rel=\"" ++ op.name ++ "\"; type=\"text/plain\"").toList := by
  change ("<" ++ url ++ ">; rel=\"" ++ op.name ++ "\"; type=\"text/plain\"").toList = _
  simp

theorem ofEntry?_entry (op : Operation) {url : String} (h : ';' ∉ url.toList) :
    ofEntry? (entry op url).toList = some (op, url) := by
  have ht : ';' ∉ '<' :: (url.toList ++ ['>']) := by simp [h]
  have hends : Trimmed ('<' :: (url.toList ++ ['>'])) := by
    rw [Trimmed, List.head?_cons, ← List.cons_append, List.getLast?_concat]
    simp only [Option.mem_some_iff, forall_eq']
    decide
  refine ofEntry?_eq_some_iff.2 ⟨_, ?_, relation?_eq_some_iff.1 (relation?_params op)⟩
  rw [Targets, entry_toList, List.splitOn_append_cons_self, List.splitOn_eq_singleton ht,
    List.map_append, params_splitOn, List.map_singleton, hends.trim_eq, List.singleton_append]

theorem not_mem_entry {op : Operation} {url : String} (h : ',' ∉ url.toList) :
    ',' ∉ (entry op url).toList := by
  have hn : ',' ∉ op.name.toList := fun h => absurd (Operation.isPlain_of_mem_name h) (by decide)
  rw [entry_toList]
  simp [h, hn]

/-! ## The whole value -/

theorem insertEntries_map (es : List (Operation × String)) (links : Links)
    (h : ∀ e ∈ es, ';' ∉ e.2.toList) :
    insertEntries links (es.map fun e => (entry e.1 e.2).toList) =
      es.foldl (fun links e => links.insert e.1 e.2) links := by
  induction es generalizing links with
  | nil => rfl
  | cons e es ih =>
    have he := ofEntry?_entry e.1 (h e List.mem_cons_self)
    have hes : ∀ e ∈ es, ';' ∉ e.2.toList := fun e' he' => h e' (List.mem_cons_of_mem _ he')
    rw [List.foldl_cons, ← ih (links.insert e.1 e.2) hes]
    simp only [insertEntries, List.map_cons, List.foldl_cons, he]

/-- **The header of links says these links**, unless a URL holds a comma or a semicolon. -/
theorem ofHeader_toHeader (links : Links)
    (h : ∀ op url, links.get? op = some url → ',' ∉ url.toList ∧ ';' ∉ url.toList) :
    ofHeader links.toHeader = links := by
  have hes : ∀ e ∈ links.toList, ',' ∉ e.2.toList ∧ ';' ∉ e.2.toList := fun e he =>
    h e.1 e.2 (Slots.get?_of_mem_toList he)
  have hfold := insertEntries_map links.toList .empty fun e he => (hes e he).2
  rw [Slots.foldl_insert_toList] at hfold
  rw [ofHeader, toHeader, String.toList_intercalate, List.map_map]
  cases hl : links.toList with
  | nil =>
    rw [hl] at hfold
    rw [← hfold]
    rfl
  | cons e es =>
    rw [hl] at hfold hes
    rw [show ",".toList = [','] from rfl, List.splitOn_intercalate ',' ?_ (by simp)]
    · exact hfold
    · intro p hp
      obtain ⟨e', he', rfl⟩ := List.mem_map.1 hp
      exact not_mem_entry (hes e' he').1

/-! ## The links that a value can hold -/

/-- No URL of the links holds a separator of the header. -/
def Separable (links : Links) : Prop :=
  ∀ op url, links.get? op = some url → ',' ∉ url.toList ∧ ';' ∉ url.toList

/-- A URL that is read stands in one piece in the text. -/
theorem Gives.not_mem {text : List Char} {op : Operation} {url : String} (h : Gives text op url)
    (ht : ',' ∉ text) : ',' ∉ url.toList ∧ ';' ∉ url.toList := by
  obtain ⟨params, htarget, -⟩ := h
  obtain ⟨piece, hm, hpiece⟩ :
      ∃ piece ∈ text.splitOn ';', trim piece = '<' :: (url.toList ++ ['>']) := by
    apply List.mem_map.1
    rw [htarget]
    exact List.mem_cons_self
  have hsub : ∀ c ∈ url.toList, c ∈ piece := by
    intro c hc
    apply mem_of_mem_trim
    rw [hpiece]
    simp [hc]
  exact ⟨fun hc => ht (mem_of_mem_splitOn hm (hsub _ hc)),
    fun hc => not_mem_of_mem_splitOn hm (hsub _ hc)⟩

theorem separable_ofHeader (header : String) : (ofHeader header).Separable := by
  intro op url hu
  obtain ⟨before, text, after, hp, hgives, -⟩ := get?_insertEntries_empty_iff.1 hu
  have hmem : text ∈ header.toList.splitOn ',' := hp ▸ by simp
  exact hgives.not_mem (not_mem_of_mem_splitOn hmem)

/-- **Which links come back.** Links are read back from their header exactly if no URL of theirs
holds a comma or a semicolon. None of the links that are read from any value whatsoever does, and so
these always come back. -/
theorem header_round_trip :
    (∀ links : Links, ofHeader links.toHeader = links ↔ links.Separable) ∧
    (∀ header, (ofHeader header).Separable) ∧
    ∀ header, ofHeader (ofHeader header).toHeader = ofHeader header := by
  refine ⟨fun links => ⟨fun h => ?_, ofHeader_toHeader links⟩, separable_ofHeader, fun header => ?_⟩
  · rw [← h]
    exact separable_ofHeader links.toHeader
  · exact ofHeader_toHeader _ (separable_ofHeader header)

/-! ## The links of a participant -/

variable {σ : Type} (d : Descriptor σ) (base : String)

theorem mem_operations (op : Operation) : op ∈ d.operations ↔ (d.callback? op).isSome = true := by
  simp [Descriptor.operations, Slots.bound, Descriptor.callback?, Operation.mem_all]

theorem get?_extend (links : Links) (op : Operation) :
    (links.extend d base).get? op = (links.get? op).or
      (if (d.callback? op).isSome then some (urlOf base d.owner op) else none) := by
  simp only [extend, ← mem_operations]
  generalize d.operations = ops
  induction ops generalizing links with
  | nil => simp
  | cons o ops ih =>
    rw [List.foldl_cons, ih]
    by_cases ho : o = op
    · subst ho
      cases hl : links.get? o with
      | some url => simp [hl]
      | none => simp [Slots.get?_insert]
    · have ho' : op ≠ o := Ne.symm ho
      split <;> simp [Slots.get?_insert, ho, ho']

theorem get?_ofDescriptor (op : Operation) :
    (ofDescriptor d base).get? op =
      if (d.callback? op).isSome then some (urlOf base d.owner op) else none := by
  rw [ofDescriptor, get?_extend, Slots.get?_empty, Option.none_or]

/-- What a participant advertises is what the other side reads. -/
theorem ofHeader_ofDescriptor {base : String} (hb : ',' ∉ base.toList ∧ ';' ∉ base.toList) :
    ofHeader (ofDescriptor d base).toHeader = ofDescriptor d base := by
  refine ofHeader_toHeader _ fun op url hu => ?_
  rw [get?_ofDescriptor] at hu
  split at hu
  · cases hu
    exact ⟨fun h => hb.1 (mem_urlOf (.inl rfl) h), fun h => hb.2 (mem_urlOf (.inr rfl) h)⟩
  · cases hu

end Links

end Saga
