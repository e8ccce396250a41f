import Mathlib.Data.Rat.Defs
import Mathlib.Logic.Function.Basic
import Mathlib.Tactic.Common

/-!
# The replay filter

`proxy/shadowsocks/context.rs`: `PingPongBloom` is two Bloom filters that take turns. New items go
into the current one until it has its share; then the other one is cleared and becomes the current
one. So an item is found again until both filters have been filled behind it, and a replay of one of
the last items is noticed (`PingPongBloom.replay_window`). The Bloom filters themselves are outside
(`Bloom`).
-/

namespace V2ray

/-- `Bloom<[u8]>`: a set of byte strings, which may find some that were never set. -/
structure Bloom (B : Type) where
  newForFpRate : ℕ → ℚ → B
  check : B → List UInt8 → Bool
  set : B → List UInt8 → B
  clear : B → B

/-- What was set is found until the filter is cleared. -/
structure Bloom.Remembers {B : Type} (F : Bloom B) : Prop where
  check_set : ∀ b x, F.check (F.set b x) x = true
  check_set_of_check : ∀ {b : B} {x : List UInt8} (y : List UInt8),
    F.check b x = true → F.check (F.set b y) x = true

structure PingPongBloom (B : Type) where
  blooms : Fin 2 → B
  bloomCount : Fin 2 → ℕ
  itemCount : ℕ
  current : Fin 2

namespace PingPongBloom

variable {B : Type} (F : Bloom B)

/-- `BF_NUM_ENTRIES_FOR_SERVER` -/
def bfNumEntriesForServer : ℕ := 1000000

/-- `BF_NUM_ENTRIES_FOR_CLIENT` -/
def bfNumEntriesForClient : ℕ := 10000

/-- `BF_ERROR_RATE_FOR_SERVER` -/
def bfErrorRateForServer : ℚ := 1e-6

/-- `BF_ERROR_RATE_FOR_CLIENT` -/
def bfErrorRateForClient : ℚ := 1e-15

/-- A new filter, of `itemCount` items in each half. -/
def ofItemCount (itemCount : ℕ) (fpP : ℚ) : PingPongBloom B where
  blooms _ := F.newForFpRate itemCount fpP
  bloomCount _ := 0
  itemCount := itemCount
  current := 0

/-- `PingPongBloom::new` -/
def new (isLocal : Bool) : PingPongBloom B :=
  let (itemCount, fpP) :=
    if isLocal then (bfNumEntriesForClient, bfErrorRateForClient)
    else (bfNumEntriesForServer, bfErrorRateForServer)
  ofItemCount F (itemCount / 2) fpP

/-- The other filter, cleared, is the current one from now on. -/
def swap (s : PingPongBloom B) : PingPongBloom B :=
  -- `(self.current + 1) % 2`
  let current := s.current + 1
  { s with
    current := current
    bloomCount := Function.update s.bloomCount current 0
    blooms := Function.update s.blooms current (F.clear (s.blooms current)) }

/-- `buf` goes into the current filter. -/
def setCurrent (s : PingPongBloom B) (buf : List UInt8) : PingPongBloom B :=
  { s with
    blooms := Function.update s.blooms s.current (F.set (s.blooms s.current) buf)
    bloomCount := Function.update s.bloomCount s.current (s.bloomCount s.current + 1) }

/-- `check_and_set`: whether `buf` was found. -/
def checkAndSet (s : PingPongBloom B) (buf : List UInt8) : Bool × PingPongBloom B :=
  if F.check (s.blooms 0) buf || F.check (s.blooms 1) buf then (true, s)
  else
    let s := if s.itemCount ≤ s.bloomCount s.current then swap F s else s
    (false, setCurrent F s buf)

/-- Calls one after the other: their answers, and the filter after them. -/
def calls : List (List UInt8) → PingPongBloom B → List Bool × PingPongBloom B
  | [], s => ([], s)
  | buf :: bufs, s =>
    let (found, s) := checkAndSet F s buf
    let (answers, s) := calls bufs s
    (found :: answers, s)

/-! ### One call -/

variable {F} {s : PingPongBloom B} {x buf : List UInt8}

/-- The two filters are the current one and the other one. -/
theorem check_or_check (s : PingPongBloom B) (x : List UInt8) :
    (F.check (s.blooms 0) x || F.check (s.blooms 1) x) = true ↔
      F.check (s.blooms s.current) x = true ∨ F.check (s.blooms (s.current + 1)) x = true := by
  rw [Bool.or_eq_true]
  match s.current with
  | 0 => exact Iff.rfl
  | 1 => exact or_comm

theorem add_one_ne (i : Fin 2) : i + 1 ≠ i := by
  match i with
  | 0 | 1 => decide

theorem add_one_add_one (i : Fin 2) : i + 1 + 1 = i := by
  match i with
  | 0 | 1 => rfl

/-- A call finds its item, or sets it in the current filter, which is the other one if this was
full. -/
inductive Call (F : Bloom B) (s : PingPongBloom B) (buf : List UInt8) :
    Bool × PingPongBloom B → Prop
  | found : Call F s buf (true, s)
  | room (lt : s.bloomCount s.current < s.itemCount) : Call F s buf (false, setCurrent F s buf)
  | full (le : s.itemCount ≤ s.bloomCount s.current) :
      Call F s buf (false, setCurrent F (swap F s) buf)

theorem call (s : PingPongBloom B) (buf : List UInt8) : Call F s buf (checkAndSet F s buf) := by
  unfold checkAndSet
  split
  · exact .found
  · dsimp only
    split
    · next h_full => exact .full h_full
    · next h_room => exact .room (Nat.lt_of_not_le h_room)

@[simp] theorem setCurrent_current : (setCurrent F s buf).current = s.current := rfl

@[simp] theorem setCurrent_itemCount : (setCurrent F s buf).itemCount = s.itemCount := rfl

@[simp] theorem swap_current : (swap F s).current = s.current + 1 := rfl

@[simp] theorem swap_itemCount : (swap F s).itemCount = s.itemCount := rfl

@[simp] theorem swap_bloomCount : (swap F s).bloomCount (s.current + 1) = 0 :=
  Function.update_self _ _ _

@[simp] theorem setCurrent_bloomCount :
    (setCurrent F s buf).bloomCount s.current = s.bloomCount s.current + 1 :=
  Function.update_self _ _ _

theorem setCurrent_bloomCount_of_ne {i : Fin 2} (h : i ≠ s.current) :
    (setCurrent F s buf).bloomCount i = s.bloomCount i :=
  Function.update_of_ne h _ _

theorem swap_bloomCount_of_ne {i : Fin 2} (h : i ≠ s.current + 1) :
    (swap F s).bloomCount i = s.bloomCount i :=
  Function.update_of_ne h _ _

@[simp] theorem setCurrent_blooms :
    (setCurrent F s buf).blooms s.current = F.set (s.blooms s.current) buf :=
  Function.update_self _ _ _

theorem setCurrent_blooms_of_ne {i : Fin 2} (h : i ≠ s.current) :
    (setCurrent F s buf).blooms i = s.blooms i :=
  Function.update_of_ne h _ _

/-- The filter that was current is not cleared. -/
theorem swap_blooms : (swap F s).blooms s.current = s.blooms s.current :=
  Function.update_of_ne (add_one_ne s.current).symm _ _

/-- Setting an item loses none. -/
theorem check_setCurrent (h : F.Remembers) {i : Fin 2} (h_x : F.check (s.blooms i) x = true) :
    F.check ((setCurrent F s buf).blooms i) x = true := by
  by_cases h_i : i = s.current
  · subst h_i
    rw [setCurrent_blooms]
    exact h.check_set_of_check buf h_x
  · rw [setCurrent_blooms_of_ne h_i]
    exact h_x

/-! ### What the filters hold -/

/-- The counts stay within the share of a filter. -/
def Counted (s : PingPongBloom B) : Prop := ∀ i, s.bloomCount i ≤ s.itemCount

/-- `x` is found, unless more than `itemCount` items have been set since: `since` have. It is in the
current filter, or in the other one, and then all of the current one has been set since. -/
def Held (F : Bloom B) (x : List UInt8) (s : PingPongBloom B) (since : ℕ) : Prop :=
  since ≤ s.itemCount → F.check (s.blooms s.current) x = true ∨
    F.check (s.blooms (s.current + 1)) x = true ∧ s.bloomCount s.current ≤ since

theorem itemCount_checkAndSet (s : PingPongBloom B) (buf : List UInt8) :
    (checkAndSet F s buf).2.itemCount = s.itemCount := by
  have h_call := call (F := F) s buf
  generalize checkAndSet F s buf = r at h_call
  cases h_call <;> rfl

/-- Setting an item with room in the current filter keeps the counts within their share. -/
theorem counted_setCurrent (h : s.Counted) (h_room : s.bloomCount s.current < s.itemCount) :
    (setCurrent F s buf).Counted := by
  intro i
  by_cases h_i : i = s.current
  · subst h_i
    rw [setCurrent_bloomCount, setCurrent_itemCount]
    exact h_room
  · rw [setCurrent_bloomCount_of_ne h_i]
    exact h i

/-- The filter that is cleared begins with zero. -/
theorem counted_swap (h : s.Counted) : (swap F s).Counted := by
  intro i
  by_cases h_i : i = s.current + 1
  · subst h_i
    rw [swap_bloomCount]
    exact Nat.zero_le _
  · rw [swap_bloomCount_of_ne h_i]
    exact h i

/-- Checking an item keeps the numbers of items in the two filters. -/
theorem counted_checkAndSet (h : s.Counted) (h_pos : 1 ≤ s.itemCount) (buf : List UInt8) :
    (checkAndSet F s buf).2.Counted := by
  have h_call := call (F := F) s buf
  generalize checkAndSet F s buf = r at h_call
  cases h_call with
  | found => exact h
  | room lt => exact counted_setCurrent h lt
  | full le =>
    -- the filter that is current now is empty
    refine counted_setCurrent (counted_swap h) ?_
    rw [swap_current, swap_bloomCount, swap_itemCount]
    exact h_pos

/-- What has just been set is in the current filter. -/
theorem held_setCurrent (h : F.Remembers) (s : PingPongBloom B) (x : List UInt8) :
    Held F x (setCurrent F s x) 0 := by
  intro _
  left
  rw [setCurrent_current, setCurrent_blooms]
  exact h.check_set _ _

/-- An item that was not found has been set: it is held, with none set since. -/
theorem held_of_new (h : F.Remembers) (h_new : (checkAndSet F s x).1 = false) :
    Held F x (checkAndSet F s x).2 0 := by
  have h_call := call (F := F) s x
  generalize checkAndSet F s x = r at h_call h_new
  cases h_call with
  | found => cases h_new
  | room => exact held_setCurrent h s x
  | full => exact held_setCurrent h (swap F s) x

/-- **One call**: a new item is one more that has been set since. -/
theorem held_checkAndSet (h : F.Remembers) {since : ℕ} (h_held : Held F x s since)
    (buf : List UInt8) :
    Held F x (checkAndSet F s buf).2
      (since + [(checkAndSet F s buf).1].count false) := by
  have h_call := call (F := F) s buf
  generalize checkAndSet F s buf = r at h_call
  -- `found` sets nothing; `room` and `full` set one item more
  cases h_call with
  | found => exact h_held
  | room lt =>
    show Held F x _ (since + 1)
    intro h_le
    rw [setCurrent_current, setCurrent_bloomCount]
    -- `x` is in the filter that takes the item, or in the other one, which keeps it
    rcases h_held (Nat.le_of_succ_le h_le) with h_here | ⟨h_there, h_count⟩
    · exact Or.inl (check_setCurrent h h_here)
    · exact Or.inr ⟨check_setCurrent h h_there, Nat.succ_le_succ h_count⟩
  | full le =>
    show Held F x _ (since + 1)
    intro h_le
    rw [setCurrent_itemCount, swap_itemCount] at h_le
    rcases h_held (Nat.le_of_succ_le h_le) with h_here | ⟨_, h_count⟩
    · -- the filter of `x` is the other one from now on, and `buf` is alone in the current one
      right
      rw [setCurrent_current, swap_current, add_one_add_one]
      refine ⟨check_setCurrent h (swap_blooms ▸ h_here), ?_⟩
      show (setCurrent F (swap F s) buf).bloomCount (swap F s).current ≤ since + 1
      rw [setCurrent_bloomCount, swap_current, swap_bloomCount]
      exact Nat.succ_le_succ (Nat.zero_le since)
    · -- the filter of `x` is cleared, but a whole share has been set since
      exact absurd (Nat.le_trans le h_count) (Nat.not_le_of_lt h_le)

/-! ### Runs -/

theorem itemCount_calls (bufs : List (List UInt8)) (s : PingPongBloom B) :
    (calls F bufs s).2.itemCount = s.itemCount := by
  induction bufs generalizing s with
  | nil => rfl
  | cons buf bufs ih => exact (ih _).trans (itemCount_checkAndSet s buf)

/-- Calls keep the counts within their share. -/
theorem counted_calls (h : s.Counted) (h_pos : 1 ≤ s.itemCount) (bufs : List (List UInt8)) :
    (calls F bufs s).2.Counted := by
  induction bufs generalizing s with
  | nil => exact h
  | cons buf bufs ih =>
    have h_pos' : 1 ≤ (checkAndSet F s buf).2.itemCount := by
      rw [itemCount_checkAndSet]
      exact h_pos
    exact ih (counted_checkAndSet h h_pos buf) h_pos'

/-- Over calls an item stays held, and the calls that found nothing are the items set since. -/
theorem held_calls (h : F.Remembers) {since : ℕ} (h_held : Held F x s since)
    (bufs : List (List UInt8)) :
    Held F x (calls F bufs s).2 (since + (calls F bufs s).1.count false) := by
  induction bufs generalizing s since with
  | nil => exact h_held
  | cons buf bufs ih =>
    have h_rest := ih (held_checkAndSet h h_held buf)
    rw [Nat.add_assoc, ← List.count_append] at h_rest
    exact h_rest

theorem length_calls (bufs : List (List UInt8)) (s : PingPongBloom B) :
    (calls F bufs s).1.length = bufs.length := by
  induction bufs generalizing s with
  | nil => rfl
  | cons buf bufs ih => exact congrArg (· + 1) (ih _)

/-- What is in one of the two filters is found. -/
theorem checkAndSet_of_held {since : ℕ} (h : Held F x s since) (h_few : since ≤ s.itemCount) :
    (checkAndSet F s x).1 = true := by
  have h_found := (check_or_check s x).mpr ((h h_few).imp_right And.left)
  unfold checkAndSet
  rw [if_pos h_found]

/-- **A replay.** What a call has set, a later call finds, as long as no more than `itemCount` calls
in between have set something. -/
theorem checkAndSet_replayed (h : F.Remembers) (h_new : (checkAndSet F s x).1 = false)
    {between : List (List UInt8)}
    (h_few : (calls F between (checkAndSet F s x).2).1.count false ≤ s.itemCount) :
    (checkAndSet F (calls F between (checkAndSet F s x).2).2 x).1 = true := by
  have h_held := held_calls h (held_of_new h h_new) between
  rw [Nat.zero_add] at h_held
  refine checkAndSet_of_held h_held ?_
  rw [itemCount_calls, itemCount_checkAndSet]
  exact h_few

/-- **The replay window.** After any calls on a new filter the counts are at most `itemCount`; and
if a call then says that `x` is new, a later call with `x` says that it is not, as long as no more
than `itemCount` calls in between have said that their items were new. -/
theorem replay_window (h : F.Remembers) {itemCount : ℕ} (h_pos : 1 ≤ itemCount) (fpP : ℚ)
    (before : List (List UInt8)) :
    let s := (calls F before (ofItemCount F itemCount fpP)).2
    (∀ i, s.bloomCount i ≤ itemCount) ∧
      ∀ x, (checkAndSet F s x).1 = false → ∀ between : List (List UInt8),
        (calls F between (checkAndSet F s x).2).1.count false ≤ itemCount →
          (checkAndSet F (calls F between (checkAndSet F s x).2).2 x).1 = true := by
  intro s
  have h_items : s.itemCount = itemCount := itemCount_calls before _
  have h_counted : s.Counted := counted_calls (fun _ => Nat.zero_le _) h_pos before
  refine ⟨fun i => h_items ▸ h_counted i, fun x h_new between h_few => ?_⟩
  exact checkAndSet_replayed h h_new (h_items.symm ▸ h_few)

end PingPongBloom

/-- A filter without false positives. -/
def Bloom.exact : Bloom (List (List UInt8)) where
  newForFpRate _ _ := []
  check b x := x ∈ b
  set b x := x :: b
  clear _ := []

theorem Bloom.exact_remembers : Bloom.exact.Remembers where
  check_set _ _ := decide_eq_true List.mem_cons_self
  check_set_of_check y h := decide_eq_true (List.mem_cons_of_mem y (of_decide_eq_true h))

/-- Two nonces, and the second one again, with room for one in each half. -/
theorem PingPongBloom.replay_window_two :
    let s := (calls Bloom.exact [[1]] (ofItemCount Bloom.exact 1 0)).2
    let s' := (calls Bloom.exact [[3]] (checkAndSet Bloom.exact s [2]).2).2
    (checkAndSet Bloom.exact s' [2]).1 = true :=
  (replay_window Bloom.exact_remembers (Nat.le_refl 1) 0 [[1]]).2 [2] (by decide) [[3]] (by decide)

/-! ### The context -/

structure BloomContext (B : Type) where
  noncePpbloom : PingPongBloom B

namespace BloomContext

variable {B : Type} (F : Bloom B)

def new (isLocal : Bool) : BloomContext B := ⟨.new F isLocal⟩

/-- `check_nonce_and_set`: a plain cipher has no nonce. -/
def checkNonceAndSet (c : BloomContext B) (nonce : List UInt8) : Bool × BloomContext B :=
  if nonce = [] then (false, c)
  else
    let (found, s) := c.noncePpbloom.checkAndSet F nonce
    (found, ⟨s⟩)

end BloomContext

end V2ray
