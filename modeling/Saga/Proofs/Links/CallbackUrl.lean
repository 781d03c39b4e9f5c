import Saga.Links
import Saga.Proofs.Texts

/-!
# Callback URLs are read back

Every text survives percent coding (`decode?_encode`), and what it is coded as holds no separator of
a URL or a header (`isPlain_of_mem_encode`). So the URL of a participant's callback names its owner
and the operation, whatever the base and the owner are (`ofUrl?_urlOf`), unless the owner is empty,
and no other callback of the base has the same URL (`url_round_trip`).
-/

set_option autoImplicit false

namespace Saga.Text

/-- The character separates neither the segments of a URL nor the parts of a header. -/
def isPlain (c : Char) : Bool := c != '/' && c != ',' && c != ';'

namespace Percent

/-! ## One byte -/

theorem hexValue?_hexDigit {n : Nat} (h : n < 16) : hexValue? (hexDigit n) = some n := by
  have hall : ∀ n < 16, hexValue? (hexDigit n) = some n := by decide
  exact hall n h

/-- A byte that stands for itself is a character of one byte, other than the percent sign. -/
theorem unreserved_char {n : Nat} (h : n < 256) (hu : isUnreserved (UInt8.ofNat n) = true) :
    Char.ofNat n ≠ '%' ∧ String.utf8EncodeChar (Char.ofNat n) = [UInt8.ofNat n] := by
  have hall : ∀ n < 256, isUnreserved (UInt8.ofNat n) = true →
      Char.ofNat n ≠ '%' ∧ String.utf8EncodeChar (Char.ofNat n) = [UInt8.ofNat n] := by
    decide +kernel
  exact hall n h hu

theorem encodeByte_plain {n : Nat} (h : n < 256) : (encodeByte (UInt8.ofNat n)).all isPlain := by
  have hall : ∀ n < 256, (encodeByte (UInt8.ofNat n)).all isPlain := by decide +kernel
  exact hall n h

theorem decodeBytes_encodeByte (b : UInt8) (r : List Char) :
    decodeBytes (encodeByte b ++ r) = b :: decodeBytes r := by
  have hb : b.toNat < 256 := b.toNat_lt
  unfold encodeByte
  split
  · rename_i hu
    obtain ⟨hc, he⟩ := unreserved_char hb (by rwa [UInt8.ofNat_toNat])
    rw [List.singleton_append, decodeBytes, he, UInt8.ofNat_toNat]
    · rfl
    · exact fun _ _ _ h => absurd h hc
  · have hh : hexValue? (hexDigit (b.toNat / 16)) = some (b.toNat / 16) :=
      hexValue?_hexDigit (by omega)
    have hl : hexValue? (hexDigit (b.toNat % 16)) = some (b.toNat % 16) :=
      hexValue?_hexDigit (by omega)
    simp only [List.cons_append, List.nil_append, decodeBytes, hh, hl]
    rw [show 16 * (b.toNat / 16) + b.toNat % 16 = b.toNat by omega, UInt8.ofNat_toNat]

/-! ## Texts -/

theorem decodeBytes_encodeBytes (bs : List UInt8) : decodeBytes (encodeBytes bs) = bs := by
  induction bs with
  | nil => rfl
  | cons b bs ih =>
    rw [encodeBytes, List.flatMap_cons, decodeBytes_encodeByte]
    exact congrArg _ ih

theorem decode?_encode (s : String) : decode? (encode s) = some s := by
  rw [decode?, encode, decodeBytes_encodeBytes]
  exact dif_pos s.isValidUTF8

theorem isPlain_of_mem_encode {s : String} {c : Char} (h : c ∈ encode s) : isPlain c := by
  obtain ⟨b, -, hc⟩ := List.mem_flatMap.1 h
  have hb := encodeByte_plain b.toNat_lt
  rw [UInt8.ofNat_toNat] at hb
  exact List.all_eq_true.1 hb c hc

end Percent

end Saga.Text

namespace Saga

/-! ## URLs -/

theorem Operation.isPlain_of_mem_name {op : Operation} {c : Char} (h : c ∈ op.name.toList) :
    Text.isPlain c := by
  have hall : op.name.toList.all Text.isPlain := by cases op <;> decide
  exact List.all_eq_true.1 hall c h

/-- The last character of an operation's name, and what comes before. -/
theorem Operation.name_snoc (op : Operation) :
    ∃ l c, op.name.toList = l ++ [c] ∧ (c == '/') = false := by
  cases op with
  | complete => exact ⟨"complet".toList, 'e', rfl, rfl⟩
  | compensate => exact ⟨"compensat".toList, 'e', rfl, rfl⟩
  | status => exact ⟨"statu".toList, 's', rfl, rfl⟩
  | forget => exact ⟨"forge".toList, 't', rfl, rfl⟩

namespace Links

open Text

theorem splitOn_urlChars (base owner : String) (op : Operation) :
    (urlChars base owner op).splitOn '/' =
      (dropEndWhile (· == '/') base.toList).splitOn '/' ++
        [resourcePath.toList, Percent.encode owner, op.name.toList] := by
  have hr : '/' ∉ resourcePath.toList := by decide
  have he : '/' ∉ Percent.encode owner := fun h =>
    absurd (Percent.isPlain_of_mem_encode h) (by decide)
  have hn : '/' ∉ op.name.toList := fun h => absurd (Operation.isPlain_of_mem_name h) (by decide)
  simp only [urlChars, List.append_assoc, List.cons_append, List.splitOn_append_cons_self,
    List.splitOn_eq_singleton hr, List.splitOn_eq_singleton he, List.splitOn_eq_singleton hn,
    List.nil_append]

/-- What is read from a callback URL; an empty owner is no owner. -/
theorem ofUrl?_urlOf_eq (base owner : String) (op : Operation) :
    ofUrl? (urlOf base owner op) = if owner = "" then none else some (owner, op) := by
  obtain ⟨l, c, hl, hc⟩ := op.name_snoc
  have hend : dropEndWhile (· == '/') (urlChars base owner op) = urlChars base owner op := by
    rw [urlChars, hl, ← List.cons_append, ← List.append_assoc, dropEndWhile_eq,
      List.rdropWhile_concat_neg _ _ _ (by simp [hc])]
  simp only [ofUrl?, urlOf, String.toList_ofList, hend, splitOn_urlChars, List.reverse_append,
    List.reverse_cons, List.reverse_nil, List.nil_append, List.cons_append,
    String.ofList_toList, Operation.ofName?_name, if_true, Percent.decode?_encode,
    String.isEmpty_iff]

/-- **A callback URL names its owner and its operation.** -/
theorem ofUrl?_urlOf (base : String) {owner : String} (op : Operation) (h : owner ≠ "") :
    ofUrl? (urlOf base owner op) = some (owner, op) := by
  rw [ofUrl?_urlOf_eq, if_neg h]

/-- The segments of a callback URL after its base are not shared by another owner or operation,
not even when the owner is empty and nothing can be read. -/
theorem urlOf_inj {base owner owner' : String} {op op' : Operation} :
    urlOf base owner op = urlOf base owner' op' ↔ owner = owner' ∧ op = op' := by
  constructor
  · intro h
    have hchars : urlChars base owner op = urlChars base owner' op' := by
      simpa only [urlOf, String.toList_ofList] using congrArg String.toList h
    have hpieces := congrArg (List.splitOn '/') hchars
    simp only [splitOn_urlChars, List.append_cancel_left_eq, List.cons.injEq, and_true, true_and,
      String.toList_inj] at hpieces
    obtain ⟨howner, hname⟩ := hpieces
    constructor
    · simpa only [Percent.decode?_encode, Option.some.injEq] using congrArg Percent.decode? howner
    · simpa only [Operation.ofName?_name, Option.some.injEq] using congrArg Operation.ofName? hname
  · rintro ⟨rfl, rfl⟩
    rfl

/-- **What a callback URL says.** Whatever the base is, the owner and the operation are read back
from the URL that is made of them, unless the owner is empty, and then nothing is read; and two
callbacks of one base never have the same URL. -/
theorem url_round_trip (base owner : String) (op : Operation) :
    ofUrl? (urlOf base owner op) = (if owner = "" then none else some (owner, op)) ∧
      ∀ owner' op', urlOf base owner op = urlOf base owner' op' ↔ owner = owner' ∧ op = op' :=
  ⟨ofUrl?_urlOf_eq base owner op, fun _ _ => urlOf_inj⟩

/-- A name that looks like a path, and like one that is coded already, comes back as it is. -/
example : ofUrl? (urlOf "http://svc//" "billing/v2 %2F" .complete) =
    some ("billing/v2 %2F", .complete) := by
  decide +kernel

/-- A callback URL holds a separator of links only if its base does. -/
theorem mem_urlOf {base owner : String} {op : Operation} {c : Char} (hc : c = ',' ∨ c = ';')
    (h : c ∈ (urlOf base owner op).toList) : c ∈ base.toList := by
  have hs : c ≠ '/' := by rcases hc with rfl | rfl <;> decide
  have hr : c ∉ resourcePath.toList := by rcases hc with rfl | rfl <;> decide
  have hp : ¬ isPlain c = true := by rcases hc with rfl | rfl <;> decide
  have he : c ∉ Percent.encode owner := fun h => hp (Percent.isPlain_of_mem_encode h)
  have hn : c ∉ op.name.toList := fun h => hp (Operation.isPlain_of_mem_name h)
  rw [urlOf, String.toList_ofList, urlChars] at h
  simp only [List.mem_append, List.mem_cons, hs, hr, he, hn, or_false] at h
  exact (List.rdropWhile_prefix _ _).subset h

end Links

end Saga
