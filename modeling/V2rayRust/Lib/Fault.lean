import Mathlib.Algebra.Group.Nat.Defs
import Mathlib.Data.List.Basic
import Mathlib.Data.List.Induction

/-!
# Faults of a compiled program

What can stop a Rust function other than returning: a panic, or a loop that never
ends. Computations that may do so are `Except Fault α`. Unsigned arithmetic depends on
whether overflow checks are compiled in, so the checked operators take a `Profile`.
-/

namespace V2ray

/-- A way to stop without returning a value. -/
inductive Fault
  /-- an arithmetic operation left the range of its type (overflow checks on) -/
  | overflow
  /-- an index or a slice bound was out of range -/
  | outOfBounds
  /-- `unwrap` of the named value met `None` or `Err` -/
  | unwrapNone (value : String)
  /-- a remainder by zero -/
  | remByZero
  /-- `unimplemented!()` was reached -/
  | unimplemented
  /-- `unreachable!()` was reached -/
  | unreachable
  /-- a future was polled after it had completed -/
  | resumed
  /-- a loop that never ends -/
  | diverge
  deriving DecidableEq, Repr

/-- The two cargo profiles: `debug` checks arithmetic, `release` wraps. -/
inductive Profile
  | debug
  | release
  deriving DecidableEq, Repr

namespace Profile

/-- `a - b` on `w`-bit unsigned integers. -/
def sub (p : Profile) (w a b : ℕ) : Except Fault ℕ :=
  if b ≤ a then .ok (a - b)
  else match p with
    | debug => .error .overflow
    | release => .ok ((a + 2 ^ w - b) % 2 ^ w)

/-- `a + b` on `w`-bit unsigned integers. -/
def add (p : Profile) (w a b : ℕ) : Except Fault ℕ :=
  if a + b < 2 ^ w then .ok (a + b)
  else match p with
    | debug => .error .overflow
    | release => .ok ((a + b) % 2 ^ w)

/-- `a * b` on `w`-bit unsigned integers. -/
def mul (p : Profile) (w a b : ℕ) : Except Fault ℕ :=
  if a * b < 2 ^ w then .ok (a * b)
  else match p with
    | debug => .error .overflow
    | release => .ok (a * b % 2 ^ w)

/-- The amount by which `x << s` or `x >> s` really shifts a `w`-bit `x`: a shift by the
width or more is an overflow, and without the check the amount is masked. -/
def shiftAmount (p : Profile) (w s : ℕ) : Except Fault ℕ :=
  if s < w then .ok s
  else match p with
    | debug => .error .overflow
    | release => .ok (s % w)

@[simp] theorem sub_of_le {p : Profile} {w a b : ℕ} (h : b ≤ a) : p.sub w a b = .ok (a - b) :=
  if_pos h

@[simp] theorem add_of_lt {p : Profile} {w a b : ℕ} (h : a + b < 2 ^ w) :
    p.add w a b = .ok (a + b) :=
  if_pos h

@[simp] theorem shiftAmount_of_lt {p : Profile} {w s : ℕ} (h : s < w) :
    p.shiftAmount w s = .ok s :=
  if_pos h

/-- A product that is returned is the product modulo `2 ^ w`. -/
theorem mul_eq_ok {p : Profile} {w a b c : ℕ} (h : p.mul w a b = .ok c) : c = a * b % 2 ^ w := by
  unfold mul at h
  split at h
  · next h_lt =>
    cases h
    exact (Nat.mod_eq_of_lt h_lt).symm
  · cases p with
    | debug => cases h
    | release =>
      cases h
      rfl

theorem release_add (w a b : ℕ) : release.add w a b = .ok ((a + b) % 2 ^ w) := by
  unfold add
  split
  · next h => rw [Nat.mod_eq_of_lt h]
  · rfl

end Profile

/-- `xs[i]` -/
def index {α : Type} (xs : List α) (i : ℕ) : Except Fault α :=
  match xs[i]? with
  | some x => .ok x
  | none => .error .outOfBounds

/-- `xs[i] = x` -/
def assign {α : Type} (xs : List α) (i : ℕ) (x : α) : Except Fault (List α) :=
  if i < xs.length then .ok (xs.set i x) else .error .outOfBounds

theorem index_of_getElem? {α : Type} {xs : List α} {i : ℕ} {x : α} (h : xs[i]? = some x) :
    index xs i = .ok x := by
  unfold index
  rw [h]

/-- An index in range meets an element. -/
theorem exists_index_of_lt {α : Type} {xs : List α} {i : ℕ} (h : i < xs.length) :
    ∃ x ∈ xs, index xs i = .ok x :=
  ⟨xs[i], List.getElem_mem h, index_of_getElem? (List.getElem?_eq_getElem h)⟩

theorem getElem?_of_index {α : Type} {xs : List α} {i : ℕ} {x : α} (h : index xs i = .ok x) :
    xs[i]? = some x := by
  unfold index at h
  cases hx : xs[i]? with
  | none => rw [hx] at h; cases h
  | some y => rw [hx] at h; cases h; rfl

@[simp] theorem assign_of_lt {α : Type} {xs : List α} {i : ℕ} {x : α} (h : i < xs.length) :
    assign xs i x = .ok (xs.set i x) :=
  if_pos h

/-- Peeling one step off a computation that returned. -/
theorem bind_eq_ok {ε α β : Type} {x : Except ε α} {f : α → Except ε β} {b : β} :
    x >>= f = .ok b ↔ ∃ a, x = .ok a ∧ f a = .ok b := by
  cases x with
  | error e => exact ⟨fun h => (by cases h), fun ⟨_, h, _⟩ => (by cases h)⟩
  | ok a => exact ⟨fun h => ⟨a, rfl, h⟩, fun ⟨_, h, hf⟩ => (by cases h; exact hf)⟩

/-- What a computation stopped at, one of its parts stopped at. -/
theorem bind_eq_error {ε α β : Type} {x : Except ε α} {f : α → Except ε β} {e : ε} :
    x >>= f = .error e ↔ x = .error e ∨ ∃ a, x = .ok a ∧ f a = .error e := by
  cases x with
  | error e' =>
    exact ⟨fun h => Or.inl (by cases h; rfl),
      fun h => h.elim (fun h => (by cases h; rfl)) fun ⟨_, h, _⟩ => (by cases h)⟩
  | ok a =>
    exact ⟨fun h => Or.inr ⟨a, rfl, h⟩,
      fun h => h.elim (fun h => (by cases h)) fun ⟨_, h, hf⟩ => (by cases h; exact hf)⟩

@[simp] theorem ok_bind {ε α β : Type} (a : α) (f : α → Except ε β) :
    ((.ok a : Except ε α) >>= f) = f a := rfl

@[simp] theorem error_bind {ε α β : Type} (e : ε) (f : α → Except ε β) :
    ((.error e : Except ε α) >>= f) = .error e := rfl

/-- **Invariants of loops**: what holds before a loop, and is kept by every turn that does not
stop, holds after the loop, together with the items it has gone over. -/
theorem foldlM_induction {ε α β : Type} {f : β → α → Except ε β} {P : List α → β → Prop}
    {xs : List α} {b b' : β} (h_init : P [] b)
    (h_step : ∀ xs b x b', P xs b → f b x = .ok b' → P (xs ++ [x]) b')
    (h : xs.foldlM f b = .ok b') : P xs b' := by
  induction xs using List.reverseRecOn generalizing b' with
  | nil =>
    cases h
    exact h_init
  | append_singleton xs x ih =>
    rw [List.foldlM_append] at h
    obtain ⟨m, h_m, h⟩ := bind_eq_ok.mp h
    obtain ⟨m', h_x, h⟩ := bind_eq_ok.mp h
    cases h
    exact h_step xs m x b' (ih h_m) h_x

end V2ray
