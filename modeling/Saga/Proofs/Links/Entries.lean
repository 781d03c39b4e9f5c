import Mathlib.Data.List.Basic
import Saga.Links
import Saga.Proofs.Occurrences

/-!
# The entries of a link header

An entry is a target in angle brackets with parameters, of which the first that starts with `rel=`
names a relation (`Relates`). It gives a URL to an operation (`Gives`), or it says nothing, because
its target is malformed or its relation is not known (`Void`). The reader of an entry follows these
rules (`ofEntry?_eq_some_iff`, `ofEntry?_eq_none_iff`), and nothing is carried from an entry to the
next one: the last entry that says something of an operation decides (`GivesLast`), whatever stands
around it. So the links of two values that are joined by a comma are those of the first, with those
of the second in their place (`entries_independent`).
-/

set_option autoImplicit false

namespace Saga.Links

open Text

/-! ## What an entry says -/

/-- The relation that parameters name: the value of the first one for it, without the quotes. -/
inductive Relates : List (List Char) → List Char → Prop
  | here (value : List Char) (params : List (List Char)) :
    Relates (("rel=".toList ++ value) :: params) (dropAround (· == '"') value)
  | later {param rel : List Char} {params : List (List Char)} :
    ¬ "rel=".toList <+: param → Relates params rel → Relates (param :: params) rel

/-- The entry has this text in angle brackets as its target, and these parameters. -/
def Targets (text url : List Char) (params : List (List Char)) : Prop :=
  (text.splitOn ';').map trim = ('<' :: (url ++ ['>'])) :: params

/-- The entry is well formed, and gives the URL to the operation. -/
def Gives (text : List Char) (op : Operation) (url : String) : Prop :=
  ∃ params, Targets text url.toList params ∧ Relates params op.name.toList

/-- The entry says nothing of any operation. -/
inductive Void (text : List Char) : Prop
  | malformed : (∀ url params, ¬ Targets text url params) → Void text
  | unrelated {url : List Char} {params : List (List Char)} : Targets text url params →
    (∀ op : Operation, ¬ Relates params op.name.toList) → Void text

variable {text : List Char} {op : Operation} {url : String}

theorem isPrefixOf?_eq_none_iff {start l : List Char} :
    start.isPrefixOf? l = none ↔ ¬ start <+: l := by
  simp only [Option.eq_none_iff_forall_ne_some, ne_eq, List.isPrefixOf?_eq_some_iff_append_eq,
    List.IsPrefix, not_exists]

theorem relation?_eq_some_iff {params : List (List Char)} {rel : List Char} :
    relation? params = some rel ↔ Relates params rel := by
  constructor
  · intro h
    induction params with
    | nil => cases h
    | cons param params ih =>
      rw [relation?] at h
      split at h
      · rename_i value hv
        cases h
        rw [← List.isPrefixOf?_eq_some_iff_append_eq.1 hv]
        exact .here value params
      · rename_i hv
        exact .later (isPrefixOf?_eq_none_iff.1 hv) (ih h)
  · intro h
    induction h with
    | here value params => rw [relation?, List.isPrefixOf?_eq_some_iff_append_eq.2 rfl]
    | later hp _ ih => rw [relation?, isPrefixOf?_eq_none_iff.2 hp, ih]

/-- The text between the brackets of a target. -/
theorem target_eq_some_iff {target url : List Char} :
    (['<'].isPrefixOf? target).bind ['>'].isSuffixOf? = some url ↔
      target = '<' :: (url ++ ['>']) := by
  simp [Option.bind_eq_some_iff, List.isPrefixOf?_eq_some_iff_append_eq,
    List.isSuffixOf?_eq_some_iff_append_eq, eq_comm]

/-- The operation whose name is the relation of the parameters. -/
theorem operation_eq_some_iff {params : List (List Char)} :
    ((relation? params).bind fun rel => Operation.ofName? (String.ofList rel)) = some op ↔
      Relates params op.name.toList := by
  simp only [Option.bind_eq_some_iff, relation?_eq_some_iff, Operation.ofName?_eq_some_iff]
  constructor
  · rintro ⟨rel, hrel, hname⟩
    rwa [← hname, String.toList_ofList]
  · exact fun h => ⟨_, h, String.ofList_toList⟩

theorem ofEntry?_of_targets {url : List Char} {params : List (List Char)}
    (h : Targets text url params) :
    ofEntry? text =
      ((relation? params).bind fun rel => Operation.ofName? (String.ofList rel)).map
        (·, String.ofList url) := by
  have htarget := target_eq_some_iff.2 (rfl : '<' :: (url ++ ['>']) = _)
  unfold ofEntry?
  rw [h]
  simp only [htarget]
  cases (relation? params).bind fun rel => Operation.ofName? (String.ofList rel) <;> rfl

theorem ofEntry?_of_malformed (h : ∀ url params, ¬ Targets text url params) :
    ofEntry? text = none := by
  unfold ofEntry?
  split
  · rfl
  · rename_i target params hp
    split
    · rfl
    · rename_i url hurl
      rw [target_eq_some_iff.1 hurl] at hp
      exact absurd hp (h url params)

theorem ofEntry?_eq_some_iff : ofEntry? text = some (op, url) ↔ Gives text op url := by
  constructor
  · intro h
    by_cases ht : ∃ url params, Targets text url params
    · obtain ⟨target, params, ht⟩ := ht
      rw [ofEntry?_of_targets ht] at h
      obtain ⟨op', hop, heq⟩ := Option.map_eq_some_iff.1 h
      cases heq
      exact ⟨params, by rwa [String.toList_ofList], operation_eq_some_iff.1 hop⟩
    · rw [ofEntry?_of_malformed fun url params h => ht ⟨url, params, h⟩] at h
      cases h
  · rintro ⟨params, ht, hr⟩
    rw [ofEntry?_of_targets ht, operation_eq_some_iff.2 hr, Option.map_some,
      String.ofList_toList]

theorem ofEntry?_eq_none_iff : ofEntry? text = none ↔ Void text := by
  constructor
  · intro h
    by_cases ht : ∃ url params, Targets text url params
    · obtain ⟨url, params, ht⟩ := ht
      refine .unrelated ht fun op hr => ?_
      rw [ofEntry?_of_targets ht, operation_eq_some_iff.2 hr] at h
      cases h
    · exact .malformed fun url params h => ht ⟨url, params, h⟩
  · rintro (hm | ⟨ht, hr⟩)
    · exact ofEntry?_of_malformed hm
    · rw [ofEntry?_of_targets ht, Option.map_eq_none_iff, Option.eq_none_iff_forall_ne_some]
      exact fun op hop => hr op (operation_eq_some_iff.1 hop)

/-! ## What a list of entries says -/

/-- The last of the entries that says something of the operation gives it the URL. -/
def GivesLast (entries : List (List Char)) (op : Operation) (url : String) : Prop :=
  ∃ before text after, entries = before ++ text :: after ∧ Gives text op url ∧
    ∀ later ∈ after, ∀ url', ¬ Gives later op url'

variable {entries : List (List Char)}

/-- Unless no entry says something of the operation, one is the last. -/
theorem exists_givesLast (entries : List (List Char)) (op : Operation) :
    (∃ url, GivesLast entries op url) ∨ ∀ text ∈ entries, ∀ url, ¬ Gives text op url := by
  rcases exists_last_or_forall_not (fun text => ∃ url, Gives text op url) entries with
    ⟨before, text, after, h, ⟨url, hgives⟩, hafter⟩ | hnone
  · exact .inl ⟨url, before, text, after, h, hgives, fun later hl => not_exists.1 (hafter later hl)⟩
  · exact .inr fun text ht => not_exists.1 (hnone text ht)

/-- Entries leave the link of an operation of which they say nothing. -/
theorem get?_insertEntries_of_not_gives (links : Links)
    (h : ∀ text ∈ entries, ∀ url, ¬ Gives text op url) :
    (insertEntries links entries).get? op = links.get? op := by
  induction entries generalizing links with
  | nil => rfl
  | cons text entries ih =>
    obtain ⟨ht, hrest⟩ := List.forall_mem_cons.1 h
    rw [insertEntries, List.foldl_cons]
    cases hx : ofEntry? text with
    | none => exact ih links hrest
    | some link =>
      obtain ⟨op', url⟩ := link
      have hop : op' ≠ op := by
        rintro rfl
        exact ht url (ofEntry?_eq_some_iff.1 hx)
      exact (ih _ hrest).trans (by rw [Slots.get?_insert, if_neg hop])

/-- Of several entries for an operation the last counts, whatever was there before. -/
theorem get?_insertEntries_of_givesLast (links : Links) (h : GivesLast entries op url) :
    (insertEntries links entries).get? op = some url := by
  obtain ⟨before, text, after, rfl, ht, hafter⟩ := h
  rw [insertEntries, List.foldl_append, List.foldl_cons, ofEntry?_eq_some_iff.2 ht]
  exact (get?_insertEntries_of_not_gives _ hafter).trans (by rw [Slots.get?_insert, if_pos rfl])

/-- What entries say goes before what was there. -/
theorem get?_insertEntries (links : Links) (entries : List (List Char)) (op : Operation) :
    (insertEntries links entries).get? op =
      ((insertEntries .empty entries).get? op).or (links.get? op) := by
  rcases exists_givesLast entries op with ⟨url, hlast⟩ | hnone
  · rw [get?_insertEntries_of_givesLast _ hlast, get?_insertEntries_of_givesLast _ hlast,
      Option.some_or]
  · rw [get?_insertEntries_of_not_gives _ hnone, get?_insertEntries_of_not_gives _ hnone,
      Slots.get?_empty, Option.none_or]

theorem get?_insertEntries_empty_iff :
    (insertEntries .empty entries).get? op = some url ↔ GivesLast entries op url := by
  refine ⟨fun h => ?_, get?_insertEntries_of_givesLast _⟩
  rcases exists_givesLast entries op with ⟨url', hlast⟩ | hnone
  · rw [get?_insertEntries_of_givesLast _ hlast] at h
    cases h
    exact hlast
  · rw [get?_insertEntries_of_not_gives _ hnone, Slots.get?_empty] at h
    cases h

/-- Exactly entries that all say nothing give no links. -/
theorem insertEntries_empty_eq_empty_iff :
    insertEntries .empty entries = .empty ↔ ∀ text ∈ entries, Void text := by
  simp only [← ofEntry?_eq_none_iff, Option.eq_none_iff_forall_ne_some]
  constructor
  · rintro h text ht ⟨op, url⟩ hx
    rcases exists_givesLast entries op with ⟨url', hlast⟩ | hnone
    · have hget := get?_insertEntries_of_givesLast .empty hlast
      rw [h, Slots.get?_empty] at hget
      cases hget
    · exact hnone text ht url (ofEntry?_eq_some_iff.1 hx)
  · intro h
    apply Slots.ext_get?
    intro op
    exact get?_insertEntries_of_not_gives _ fun text ht url hs =>
      h text ht (op, url) (ofEntry?_eq_some_iff.2 hs)

/-! ## Header values -/

/-- A comma between two values keeps their entries apart. -/
theorem ofHeader_append_comma (a b : String) :
    ofHeader (a ++ "," ++ b) = insertEntries (ofHeader a) (b.toList.splitOn ',') := by
  have hpieces : (a ++ "," ++ b).toList.splitOn ',' =
      a.toList.splitOn ',' ++ b.toList.splitOn ',' := by
    simp [← List.splitOn_append_cons_self]
  rw [ofHeader, hpieces, insertEntries, List.foldl_append]
  rfl

theorem get?_ofHeader_append_comma (a b : String) (op : Operation) :
    (ofHeader (a ++ "," ++ b)).get? op =
      ((ofHeader b).get? op).or ((ofHeader a).get? op) := by
  rw [ofHeader_append_comma, get?_insertEntries]
  rfl

/-- A comma at the end changes nothing. -/
theorem ofHeader_append_comma_empty (a : String) : ofHeader (a ++ "," ++ "") = ofHeader a := by
  rw [ofHeader_append_comma]
  rfl

theorem ofHeader_append_comma_of_empty {b : String} (a : String) (h : ofHeader b = .empty) :
    ofHeader (a ++ "," ++ b) = ofHeader a := by
  apply Slots.ext_get?
  intro op
  rw [get?_ofHeader_append_comma, h, Slots.get?_empty, Option.none_or]

theorem ofHeader_append_comma_of_empty_left {a : String} (b : String) (h : ofHeader a = .empty) :
    ofHeader (a ++ "," ++ b) = ofHeader b := by
  rw [ofHeader_append_comma, h]
  rfl

/-- **The entries of a header value are independent.** The links of two values that are joined by a
comma are the links of the first one, with those of the second in the place of its own. So a text
can be put in at any comma of any value, or at either end, without a change exactly if each of its
entries says nothing: its target is malformed, or its relation is not known. And the link of an
operation is always the one of the last entry that gives it one. -/
theorem entries_independent :
    (∀ a b op, (ofHeader (a ++ "," ++ b)).get? op =
      ((ofHeader b).get? op).or ((ofHeader a).get? op)) ∧
    (∀ text : String,
      (∀ a b, ofHeader (a ++ "," ++ text ++ "," ++ b) = ofHeader (a ++ "," ++ b) ∧
        ofHeader (text ++ "," ++ b) = ofHeader b ∧ ofHeader (a ++ "," ++ text) = ofHeader a) ↔
      ∀ entry ∈ text.toList.splitOn ',', Void entry) ∧
    ∀ header op url, (ofHeader header).get? op = some url ↔
      GivesLast (header.toList.splitOn ',') op url := by
  refine ⟨get?_ofHeader_append_comma, fun text => ?_, fun header op url =>
    get?_insertEntries_empty_iff⟩
  rw [← insertEntries_empty_eq_empty_iff]
  change _ ↔ ofHeader text = .empty
  constructor
  · intro h
    rw [← ofHeader_append_comma_empty]
    exact (h "" "").2.1
  · intro h a b
    refine ⟨?_, ofHeader_append_comma_of_empty_left b h, ofHeader_append_comma_of_empty a h⟩
    rw [ofHeader_append_comma, ofHeader_append_comma_of_empty a h, ← ofHeader_append_comma]

/-- Neither an entry for a relation that is not known nor one without a target hides another. -/
example : ofHeader ("<http://x/c>; rel=complete,<http://x/after>; rel=\"after\", garbage," ++
      " <http://x/s>; rel=status") =
    (Slots.empty.insert .complete "http://x/c").insert .status "http://x/s" := by
  decide +kernel

end Saga.Links
