import Mathlib.Logic.Function.Basic
import Saga.Proofs.Context.Requests
import Saga.Proofs.Replay

/-!
# Chains whose computations run by turns

A `Weave` is any number of chains, each opened by a scope, in another chain or in none, with the
slot that its scope keeps. Whoever gets a turn runs in its own chain with the chains around it
installed beneath (`Weave.scopes`), and when the turn is over every one of these slots has what is
there then (`putBack`): a request that reached the wrong chain would show. What a move does all the
same is to one slot only (`play_enter`, `play_ask`, `play_leave`), and so every chain has come to
what its own requests make of a new chain (`Turns.sound_apart`), also a chain in which another was
opened and has ended (`Turns.enclosing_kept`).
-/

set_option autoImplicit false

namespace Saga.Scopes

variable {α κ τ : Type}

/-- One who makes requests: the chain with a number, or somebody outside every chain. -/
abbrev Caller := Option Nat

/-- How a scope comes to its end. -/
inductive Exit where
  | returned
  | unwound

/-- One turn: a scope is opened, a request is made, or a scope ends. -/
inductive Move (α κ : Type) where
  | enter (caller : Caller)
  | ask (caller : Caller) (q : Request α κ)
  | leave (n : Nat) (exit : Exit)

/-- Chains that take turns, with a log of who asked what and was answered what. -/
structure Weave (α κ τ : Type) where
  /-- How many scopes were opened so far; their chains are numbered in this order. -/
  opened : Nat
  /-- The chains around one, innermost first. -/
  around : Nat → List Nat
  /-- What the scope of a chain keeps, while it is open. -/
  slot : Nat → Option (Chain α)
  journal : τ
  log : List (Caller × Request α κ × Reply α)

/-- The slots of `path`, the innermost first, have the chains `s` now. -/
def putBack (slot : Nat → Option (Chain α)) : List Nat → Scopes α → Nat → Option (Chain α)
  | n :: path, c :: s => Function.update (putBack slot path s) n (some c)
  | _, _ => slot

/-- The replies to one request after the other, and what becomes of the scopes and the journal. -/
def performAll [DecidableEq κ] [HasKind α κ] [Journal τ] :
    List (Request α κ) → Scopes α → τ → List (Reply α) × Scopes α × τ
  | [], s, j => ([], s, j)
  | q :: qs, s, j =>
    let (reply, s, j) := perform q s j
    let (replies, s, j) := performAll qs s j
    (reply :: replies, s, j)

theorem performAll_append [DecidableEq κ] [HasKind α κ] [Journal τ] (qs qs' : List (Request α κ))
    (s : Scopes α) (j : τ) :
    performAll (qs ++ qs') s j =
      let (replies, s, j) := performAll qs s j
      let (replies', s, j) := performAll qs' s j
      (replies ++ replies', s, j) := by
  induction qs generalizing s j with
  | nil => rfl
  | cons q qs ih => simp only [List.cons_append, performAll, ih]

/-- Requests in a chain are answered from it, whatever is around it and in the journal. -/
theorem performAll_cons [DecidableEq κ] [HasKind α κ] [Journal τ] (qs : List (Request α κ))
    (c : Chain α) :
    ∃ replies c', ∀ (cs : Scopes α) (j : τ), ∃ j',
      performAll qs (c :: cs) j = (replies, c' :: cs, j') := by
  induction qs generalizing c with
  | nil => exact ⟨[], c, fun _ j => ⟨j, rfl⟩⟩
  | cons q qs ih =>
    obtain ⟨replies, c', h⟩ := ih (q.turn c)
    refine ⟨q.reply c :: replies, c', fun cs j => ?_⟩
    obtain ⟨j₁, hq⟩ := perform_cons q c cs j
    obtain ⟨j₂, hqs⟩ := h cs j₁
    exact ⟨j₂, by simp only [performAll, hq, hqs]⟩

/-- The scopes in which a caller would begin if it were the only one. -/
def home : Caller → Scopes α
  | none => []
  | some _ => enter []

namespace Weave

/-- No scope was opened yet. -/
def ofJournal (journal : τ) : Weave α κ τ := ⟨0, fun _ => [], fun _ => none, journal, []⟩

variable (w : Weave α κ τ)

/-- The chains that a caller runs in, innermost first. -/
def path : Caller → List Nat
  | none => []
  | some n => n :: w.around n

def chain (n : Nat) : Chain α := (w.slot n).getD none

/-- The scopes that a caller finds in its turn. -/
def scopes (caller : Caller) : Scopes α := (w.path caller).map w.chain

/-- Can the caller get a turn? -/
def Runs : Caller → Prop
  | none => True
  | some n => (w.slot n).isSome

/-- A scope can end when every scope in it has ended. -/
def MayEnd (n : Nat) : Prop :=
  (w.slot n).isSome ∧ ∀ m < w.opened, n ∈ w.around m → w.slot m = none

/-- What a caller has asked so far. -/
def requests (caller : Caller) : List (Request α κ) :=
  w.log.filterMap fun e => if e.1 = caller then some e.2.1 else none

/-- What a caller was answered so far. -/
def replies (caller : Caller) : List (Reply α) :=
  w.log.filterMap fun e => if e.1 = caller then some e.2.2 else none

theorem requests_of_log {w w' : Weave α κ τ} (h : w'.log = w.log) (caller : Caller) :
    w'.requests caller = w.requests caller ∧ w'.replies caller = w.replies caller := by
  unfold requests replies
  rw [h]
  exact ⟨rfl, rfl⟩

theorem requests_of_append {w w' : Weave α κ τ} {asker : Caller} {q : Request α κ} {reply : Reply α}
    (h : w'.log = w.log ++ [(asker, q, reply)]) (caller : Caller) :
    w'.requests caller = w.requests caller ++ (if asker = caller then [q] else []) ∧
      w'.replies caller = w.replies caller ++ (if asker = caller then [reply] else []) := by
  unfold requests replies
  rw [h, List.filterMap_append, List.filterMap_append]
  by_cases ha : asker = caller <;> simp [ha]

instance : DecidablePred w.Runs
  | none => isTrue trivial
  | some n => inferInstanceAs (Decidable ((w.slot n).isSome = true))

instance (n : Nat) : Decidable (w.MayEnd n) :=
  have (m : Nat) : Decidable (w.slot m = none) := decidable_of_iff _ Option.isNone_iff_eq_none
  inferInstanceAs (Decidable (_ ∧ _))

/-- Chains are open whose number was given, and only inside chains that are open. -/
structure Sound (w : Weave α κ τ) : Prop where
  given : ∀ n, (w.slot n).isSome → n < w.opened
  around : ∀ n, (w.slot n).isSome → ∀ m ∈ w.around n, (w.slot m).isSome

/-- Slots that are given what they have stay as they are. -/
theorem putBack_map_chain {path : List Nat} (h : ∀ n ∈ path, (w.slot n).isSome) :
    putBack w.slot path (path.map w.chain) = w.slot := by
  induction path with
  | nil => rfl
  | cons n path ih =>
    obtain ⟨c, hc⟩ := Option.isSome_iff_exists.1 (h n List.mem_cons_self)
    have hn : some (w.chain n) = w.slot n := by rw [chain, hc]; rfl
    rw [List.map_cons, putBack, ih fun m hm => h m (List.mem_cons_of_mem _ hm), hn,
      Function.update_eq_self]

variable {w} {caller : Caller} {n : Nat}

theorem Sound.path (h : w.Sound) (hr : w.Runs caller) :
    ∀ n ∈ w.path caller, (w.slot n).isSome := by
  cases caller with
  | none => nofun
  | some n =>
    rintro m (_ | ⟨_, hm⟩)
    · exact hr
    · exact h.around n hr m hm

variable [DecidableEq κ] [HasKind α κ] [Journal τ]

/-- The chains after a move; one that is not possible does nothing. -/
def play (w : Weave α κ τ) : Move α κ → Weave α κ τ
  | .enter caller =>
    if w.Runs caller then
      { w with
        opened := w.opened + 1
        around := Function.update w.around w.opened (w.path caller)
        slot := putBack w.slot (w.opened :: w.path caller) (w.scopes caller).enter }
    else w
  | .ask caller q =>
    if w.Runs caller then
      let (reply, s, journal) := perform q (w.scopes caller) w.journal
      { w with
        slot := putBack w.slot (w.path caller) s
        journal := journal
        log := w.log ++ [(caller, q, reply)] }
    else w
  | .leave n _ =>
    if w.MayEnd n then
      { w with
        slot := Function.update (putBack w.slot (w.around n) (w.scopes (some n)).leave) n none }
    else w

/-! ## What a move does -/

/-- A scope that is opened gets a slot without a frame, and the others stay. -/
theorem play_enter (h : w.Sound) (hr : w.Runs caller) :
    w.play (.enter caller) =
      { w with
        opened := w.opened + 1
        around := Function.update w.around w.opened (w.path caller)
        slot := Function.update w.slot w.opened (some none) } := by
  rw [play, if_pos hr, enter, putBack, scopes, putBack_map_chain w (h.path hr)]

/-- A request changes the caller's chain, and the others stay. -/
theorem play_ask (h : w.Sound) {c : Chain α} (hc : w.slot n = some c) (q : Request α κ) :
    ∃ journal, w.play (.ask (some n) q) =
      { w with
        slot := Function.update w.slot n (some (q.turn c))
        journal := journal
        log := w.log ++ [(some n, q, q.reply c)] } := by
  have hr : w.Runs (some n) := Option.isSome_iff_exists.2 ⟨c, hc⟩
  have hs : w.scopes (some n) = c :: (w.around n).map w.chain := by
    rw [scopes, Weave.path, List.map_cons, chain, hc, Option.getD_some]
  obtain ⟨j', hj⟩ := perform_cons q c ((w.around n).map w.chain) w.journal
  refine ⟨j', ?_⟩
  rw [play, if_pos hr, hs, hj]
  simp only [Weave.path, putBack, putBack_map_chain w (h.around n hr)]

/-- A request from outside every chain changes none. -/
theorem play_ask_outside (q : Request α κ) :
    ∃ reply journal, (∀ j : τ, ∃ j', perform q ([] : Scopes α) j = (reply, [], j')) ∧
      w.play (.ask none q) = { w with journal := journal, log := w.log ++ [(none, q, reply)] } := by
  obtain ⟨reply, hq⟩ := perform_nil (α := α) (τ := τ) q
  obtain ⟨j', hj⟩ := hq w.journal
  refine ⟨reply, j', hq, ?_⟩
  rw [play, if_pos (show w.Runs none from trivial), show w.scopes none = [] from rfl, hj]
  rfl

/-- A scope that ends loses its slot, however it ends, and the others stay. -/
theorem play_leave (h : w.Sound) (hn : w.MayEnd n) (exit : Exit) :
    w.play (.leave n exit) = { w with slot := Function.update w.slot n none } := by
  have hs : (w.scopes (some n)).leave = (w.around n).map w.chain := rfl
  rw [play, if_pos hn, hs, putBack_map_chain w (h.around n hn.1)]

/-- What a move can do. -/
inductive Change (w w' : Weave α κ τ) : Prop
  | nothing : w' = w → Change w w'
  | entered (caller : Caller) : w.Runs caller → w'.opened = w.opened + 1 →
    w'.around = Function.update w.around w.opened (w.path caller) →
    w'.slot = Function.update w.slot w.opened (some none) → w'.log = w.log → Change w w'
  | asked (n : Nat) (c : Chain α) (q : Request α κ) : w.slot n = some c →
    w'.opened = w.opened → w'.around = w.around →
    w'.slot = Function.update w.slot n (some (q.turn c)) →
    w'.log = w.log ++ [(some n, q, q.reply c)] → Change w w'
  | outside (q : Request α κ) (reply : Reply α) :
    (∀ j : τ, ∃ j', perform q ([] : Scopes α) j = (reply, [], j')) →
    w'.opened = w.opened → w'.around = w.around → w'.slot = w.slot →
    w'.log = w.log ++ [(none, q, reply)] → Change w w'
  | left (n : Nat) : w.MayEnd n → w'.opened = w.opened → w'.around = w.around →
    w'.slot = Function.update w.slot n none → w'.log = w.log → Change w w'

theorem play_change (h : w.Sound) (m : Move α κ) : w.Change (w.play m) := by
  cases m with
  | enter caller =>
    by_cases hr : w.Runs caller
    · rw [play_enter h hr]
      exact .entered caller hr rfl rfl rfl rfl
    · exact .nothing (if_neg hr)
  | ask caller q =>
    by_cases hr : w.Runs caller
    · cases caller with
      | none =>
        obtain ⟨reply, j, hq, hp⟩ := play_ask_outside (w := w) q
        rw [hp]
        exact .outside q reply hq rfl rfl rfl rfl
      | some n =>
        obtain ⟨c, hc⟩ := Option.isSome_iff_exists.1 hr
        obtain ⟨j, hp⟩ := play_ask h hc q
        rw [hp]
        exact .asked n c q hc rfl rfl rfl rfl
    · exact .nothing (if_neg hr)
  | leave n exit =>
    by_cases hn : w.MayEnd n
    · rw [play_leave h hn exit]
      exact .left n hn rfl rfl rfl rfl
    · exact .nothing (if_neg hn)

/-! ## What every move keeps -/

variable {w' : Weave α κ τ}

omit [DecidableEq κ] [HasKind α κ] [Journal τ] in
theorem Sound.ofJournal (journal : τ) : Sound (ofJournal journal : Weave α κ τ) := ⟨nofun, nofun⟩

theorem Sound.change (h : w.Sound) (hc : w.Change w') : w'.Sound := by
  cases hc with
  | nothing e => exact e ▸ h
  | entered caller hr ho ha hs _ =>
    have hold : ∀ n, n ≠ w.opened → w'.slot n = w.slot n := fun n hn => by
      rw [hs, Function.update_of_ne hn]
    have hkeep : ∀ m, (w.slot m).isSome → (w'.slot m).isSome := fun m hm => by
      rwa [hold m (Nat.ne_of_lt (h.given m hm))]
    constructor <;> intro n hn
    · by_cases hno : n = w.opened
      · omega
      · rw [hold n hno] at hn
        have := h.given n hn
        omega
    · by_cases hno : n = w.opened
      · rw [ha, hno, Function.update_self]
        exact fun m hm => hkeep m (h.path hr m hm)
      · rw [hold n hno] at hn
        rw [ha, Function.update_of_ne hno]
        exact fun m hm => hkeep m (h.around n hn m hm)
  | asked n c q hn ho ha hs _ =>
    -- the slots that are open stay open, and no other opens
    have hopen : ∀ m, (w'.slot m).isSome = (w.slot m).isSome := fun m => by
      by_cases hm : m = n
      · rw [hs, hm, Function.update_self, hn]
        rfl
      · rw [hs, Function.update_of_ne hm]
    constructor <;> intro m hm <;> rw [hopen] at hm
    · exact ho ▸ h.given m hm
    · intro k hk
      rw [hopen]
      exact h.around m hm k (ha ▸ hk)
  | outside q reply _ ho ha hs _ =>
    constructor <;> intro m hm <;> rw [hs] at hm
    · exact ho ▸ h.given m hm
    · rw [hs, ha]
      exact h.around m hm
  | left n hn ho ha hs _ =>
    have hopen : ∀ m, (w'.slot m).isSome → m ≠ n ∧ (w.slot m).isSome := fun m hm => by
      by_cases hmn : m = n
      · rw [hs, hmn, Function.update_self] at hm
        cases hm
      · rw [hs, Function.update_of_ne hmn] at hm
        exact ⟨hmn, hm⟩
    constructor <;> intro m hm <;> obtain ⟨hmn, hm⟩ := hopen m hm
    · exact ho ▸ h.given m hm
    · intro k hk
      rw [ha] at hk
      -- the chain that ends is around no other that is open
      have hkn : k ≠ n := by
        rintro rfl
        rw [hn.2 m (h.given m hm) hk] at hm
        cases hm
      rw [hs, Function.update_of_ne hkn]
      exact h.around m hm k hk

/-! ## What a caller would see alone -/

/-- Each caller was answered what it would be answered alone, and what is in its slot is what its
chain would have come to. -/
structure Apart (w : Weave α κ τ) : Prop where
  inside : ∀ n (j : τ), ∃ c j',
    performAll (w.requests (some n)) (home (some n)) j = (w.replies (some n), [c], j') ∧
      ∀ c', w.slot n = some c' → c' = c
  outside : ∀ j : τ, ∃ j',
    performAll (w.requests none) (home none) j = (w.replies none, ([] : Scopes α), j')
  unasked : ∀ n, w.opened ≤ n → w.requests (some n) = []

theorem Apart.ofJournal (journal : τ) : Apart (ofJournal journal : Weave α κ τ) where
  inside _ j := ⟨none, j, rfl, nofun⟩
  outside j := ⟨j, rfl⟩
  unasked _ _ := rfl

/-- Where nothing is asked, slots may only come, without a frame, or go. -/
theorem Apart.of_log (h : w.Apart) (hlog : w'.log = w.log) (ho : w.opened ≤ w'.opened)
    (hslot : ∀ n c, w'.slot n = some c → w.slot n = some c ∨ n = w.opened ∧ c = none) :
    w'.Apart := by
  have hl := requests_of_log hlog
  refine ⟨fun n j => ?_, fun j => ?_, fun n hn => ?_⟩
  · obtain ⟨c, j', hp, hcs⟩ := h.inside n j
    refine ⟨c, j', by rw [(hl _).1, (hl _).2, hp], fun c' hc' => ?_⟩
    obtain hc' | ⟨rfl, rfl⟩ := hslot n c' hc'
    · exact hcs c' hc'
    · -- the new chain has asked nothing yet
      rw [h.unasked _ (Nat.le_refl _)] at hp
      have hc : [none] = [c] := congrArg (·.2.1) hp
      exact (List.cons.inj hc).1
  · rw [(hl _).1, (hl _).2]
    exact h.outside j
  · rw [(hl _).1]
    exact h.unasked n (Nat.le_trans ho hn)

theorem Apart.change (h : w.Apart) (hs : w.Sound) (hc : w.Change w') : w'.Apart := by
  cases hc with
  | nothing e => exact e ▸ h
  | entered caller hr ho _ hslot hlog =>
    refine h.of_log hlog (by omega) fun n c hc => ?_
    rw [hslot] at hc
    by_cases hno : n = w.opened
    · rw [hno, Function.update_self] at hc
      exact .inr ⟨hno, (Option.some.inj hc).symm⟩
    · rw [Function.update_of_ne hno] at hc
      exact .inl hc
  | asked n c q hn ho _ hslot hlog =>
    have hl := requests_of_append hlog
    refine ⟨fun m j => ?_, fun j => ?_, fun m hm => ?_⟩
    · obtain ⟨c₀, j', hp, hcs⟩ := h.inside m j
      rw [(hl _).1, (hl _).2, hslot]
      by_cases hmn : n = m
      · subst hmn
        obtain rfl := hcs c hn
        obtain ⟨j'', hj⟩ := perform_cons q c [] j'
        rw [if_pos rfl, if_pos rfl, performAll_append, hp, Function.update_self]
        refine ⟨q.turn c, j'', ?_, fun c' hc' => (Option.some.inj hc').symm⟩
        simp only [performAll, hj]
      · have hne : (some n : Caller) ≠ some m := fun e => hmn (Option.some.inj e)
        rw [if_neg hne, if_neg hne, List.append_nil, List.append_nil,
          Function.update_of_ne (Ne.symm hmn)]
        exact ⟨c₀, j', hp, hcs⟩
    · rw [(hl _).1, (hl _).2, if_neg nofun, if_neg nofun, List.append_nil, List.append_nil]
      exact h.outside j
    · have hlt := hs.given n (by rw [hn]; rfl)
      have hne : (some n : Caller) ≠ some m := by
        intro e
        cases e
        omega
      rw [(hl _).1, if_neg hne, List.append_nil]
      exact h.unasked m (by omega)
  | outside q reply hq ho _ hslot hlog =>
    have hl := requests_of_append hlog
    refine ⟨fun m j => ?_, fun j => ?_, fun m hm => ?_⟩
    · rw [(hl _).1, (hl _).2, if_neg nofun, if_neg nofun, List.append_nil, List.append_nil, hslot]
      exact h.inside m j
    · obtain ⟨j', hp⟩ := h.outside j
      obtain ⟨j'', hj⟩ := hq j'
      rw [(hl _).1, (hl _).2, if_pos rfl, if_pos rfl, performAll_append, hp]
      refine ⟨j'', ?_⟩
      simp only [performAll, hj]
    · rw [(hl _).1, if_neg nofun, List.append_nil]
      exact h.unasked m (by omega)
  | left n hn ho _ hslot hlog =>
    refine h.of_log hlog (by omega) fun m c hc => .inl ?_
    by_cases hmn : m = n
    · rw [hslot, hmn, Function.update_self] at hc
      cases hc
    · rwa [hslot, Function.update_of_ne hmn] at hc

end Weave

/-! ## Runs -/

/-- Any sequence of turns, from when no scope was opened yet. -/
structure Turns (α κ τ : Type) where
  journal : τ
  moves : List (Move α κ)

namespace Turns

variable [DecidableEq κ] [HasKind α κ] [Journal τ] (r : Turns α κ τ)

/-- The chains before a turn. -/
def before (n : Nat) : Weave α κ τ := replay Weave.play (.ofJournal r.journal) r.moves n

variable {i k m : Nat} {exit : Exit}

theorem sound_apart (n : Nat) : (r.before n).Sound ∧ (r.before n).Apart :=
  replay_induction (P := fun w : Weave α κ τ => w.Sound ∧ w.Apart) ⟨.ofJournal _, .ofJournal _⟩
    (fun _ move ⟨hs, ha⟩ =>
      have hc := Weave.play_change hs move
      ⟨hs.change hc, ha.change hs hc⟩) n

theorem change (n : Nat) : (r.before n).Change (r.before (n + 1)) :=
  follows_replay.related (.nothing rfl) fun move _ =>
    Weave.play_change (r.sound_apart n).1 move

/-- Between two turns more scopes are opened, and more is asked; what is around a chain stays so. -/
theorem later (hik : i ≤ k) :
    (r.before i).opened ≤ (r.before k).opened ∧
    (∀ n < (r.before i).opened, (r.before k).around n = (r.before i).around n) ∧
    ∀ caller, ∃ own, (r.before k).requests caller = (r.before i).requests caller ++ own := by
  obtain ⟨d, rfl⟩ := Nat.exists_eq_add_of_le hik
  induction d with
  | zero => exact ⟨Nat.le_refl _, fun _ _ => rfl, fun _ => ⟨[], (List.append_nil _).symm⟩⟩
  | succ d ih =>
    obtain ⟨hle, haround, hown⟩ := ih (Nat.le_add_right i d)
    have hc := r.change (i + d)
    rw [← Nat.add_assoc]
    refine ⟨?_, fun n hn => ?_, fun caller => ?_⟩
    · cases hc with
      | nothing e => exact e ▸ hle
      | _ => omega
    · rw [← haround n hn]
      cases hc with
      | nothing e => exact congrArg (·.around n) e
      | entered _ _ _ ha =>
        rw [ha]
        exact Function.update_of_ne (by omega) ..
      | asked _ _ _ _ _ ha | outside _ _ _ _ ha | left _ _ _ ha => exact congrFun ha n
    · obtain ⟨own, ho⟩ := hown caller
      cases hc with
      | nothing e => exact ⟨own, (congrArg (·.requests caller) e).trans ho⟩
      | entered _ _ _ _ _ hl | left _ _ _ _ _ hl =>
        exact ⟨own, (Weave.requests_of_log hl caller).1.trans ho⟩
      | asked _ _ _ _ _ _ _ hl | outside _ _ _ _ _ _ hl =>
        rw [(Weave.requests_of_append hl caller).1, ho, List.append_assoc]
        exact ⟨_, rfl⟩

/-- A scope opened in chain `m` ends: the chain is still open, and has come to what its own
requests since then make of it. -/
theorem enclosing_kept (hi : r.moves[i]? = some (.enter (some m))) {c : Chain α}
    (hc : (r.before i).slot m = some c) (hik : i < k)
    (hk : r.moves[k]? = some (.leave (r.before i).opened exit))
    (hend : (r.before k).MayEnd (r.before i).opened) :
    ∃ own c', (r.before (k + 1)).requests (some m) = (r.before i).requests (some m) ++ own ∧
      (r.before (k + 1)).slot m = some c' ∧ ∀ j : τ, (performAll own [c] j).2.1 = [c'] := by
  obtain ⟨hsi, hai⟩ := r.sound_apart i
  have hrun : (r.before i).Runs (some m) := by rw [Weave.Runs, hc]; rfl
  -- the new chain has `m` around it, and keeps `m` open until it ends
  have henter : (r.before (i + 1)).opened = (r.before i).opened + 1 ∧
      m ∈ (r.before (i + 1)).around (r.before i).opened := by
    have hp : r.before (i + 1) = (r.before i).play (.enter (some m)) := replay_succ hi
    rw [hp, Weave.play_enter hsi hrun]
    refine ⟨rfl, ?_⟩
    simp only [Function.update_self]
    exact List.mem_cons_self
  obtain ⟨hopened, hm⟩ := henter
  obtain ⟨-, haround, -⟩ := r.later (show i + 1 ≤ k from hik)
  rw [← haround _ (by omega)] at hm
  have hopen := (r.sound_apart k).1.around _ hend.1 m hm
  have hne : m ≠ (r.before i).opened := Nat.ne_of_lt (hsi.given m hrun)
  obtain ⟨c', hc'⟩ : ∃ c', (r.before (k + 1)).slot m = some c' := by
    have hp : r.before (k + 1) = (r.before k).play (.leave _ exit) := replay_succ hk
    rw [hp, Weave.play_leave (r.sound_apart k).1 hend]
    simp only [Function.update_of_ne hne]
    exact Option.isSome_iff_exists.1 hopen
  obtain ⟨-, -, hown⟩ := r.later (show i ≤ k + 1 by omega)
  obtain ⟨own, ho⟩ := hown (some m)
  refine ⟨own, c', ho, hc', fun j => ?_⟩
  obtain ⟨c₁, j₁, hp₁, hc₁⟩ := hai.inside m j
  obtain ⟨c₂, j₂, hp₂, hc₂⟩ := (r.sound_apart (k + 1)).2.inside m j
  obtain rfl := hc₁ c hc
  obtain rfl := hc₂ c' hc'
  rw [ho, performAll_append, hp₁] at hp₂
  obtain ⟨replies, c'', hown⟩ := performAll_cons (τ := τ) own c
  obtain ⟨j₃, hj⟩ := hown [] j
  obtain ⟨j₄, hj₁⟩ := hown [] j₁
  rw [hj]
  simp only [hj₁] at hp₂
  exact congrArg (·.2.1) hp₂

end Turns

end Saga.Scopes
