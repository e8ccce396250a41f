import Mathlib.Data.List.Basic
import Mathlib.Data.List.Induction
import Mathlib.Tactic.Common

/-!
# Tasks

Tasks on one thread take turns: a run is a list of actions, each of which must be enabled when
its turn comes. An invariant of a run may speak of the actions taken so far, and
`run_induction` proves one; a condition on a schedule says of each action what may have come
before it (`AtEach`). `Watch` is the cell through which one task passes values to another.
-/

namespace V2ray

/-! ### Runs -/

section Run

variable {S A : Type} {step : S → A → Option S} {s s' : S} {as as' : List A} {a : A}

/-- The state after these actions, if each of them is enabled in its turn. -/
def runFrom (step : S → A → Option S) (s : S) (as : List A) : Option S := as.foldlM step s

@[simp] theorem runFrom_nil (step : S → A → Option S) (s : S) : runFrom step s [] = some s := rfl

theorem runFrom_append : runFrom step s (as ++ as') = some s' ↔
    ∃ m, runFrom step s as = some m ∧ runFrom step m as' = some s' := by
  unfold runFrom
  rw [List.foldlM_append]
  exact Option.bind_eq_some_iff

theorem runFrom_cons : runFrom step s (a :: as) = some s' ↔
    ∃ m, step s a = some m ∧ runFrom step m as = some s' := by
  unfold runFrom
  rw [List.foldlM_cons]
  exact Option.bind_eq_some_iff

theorem runFrom_concat : runFrom step s (as ++ [a]) = some s' ↔
    ∃ m, runFrom step s as = some m ∧ step m a = some s' := by
  rw [runFrom_append]
  refine exists_congr fun m => and_congr_right fun _ => ?_
  show (step m a >>= fun s => pure s) = some s' ↔ _
  rw [bind_pure]

/-- **Invariants of runs**: what holds at the start, and is kept by every step of a run, holds
after every run, together with the actions taken. -/
theorem run_induction {P : List A → S → Prop} (h_init : P [] s)
    (h_step : ∀ as m a m', runFrom step s as = some m → P as m → step m a = some m' →
      P (as ++ [a]) m')
    (h : runFrom step s as = some s') : P as s' := by
  induction as using List.reverseRecOn generalizing s' with
  | nil =>
    cases h
    exact h_init
  | append_singleton as a ih =>
    obtain ⟨m, h_run, h_a⟩ := runFrom_concat.mp h
    exact h_step as m a s' h_run (ih h_run) h_a

end Run

/-! ### Conditions on schedules -/

section AtEach

variable {A : Type} {P Q : List A → A → Prop} {as as' : List A} {a : A}

/-- Every action meets a condition on what came before it. -/
def AtEach (P : List A → A → Prop) (as : List A) : Prop :=
  ∀ before a after, as = before ++ a :: after → P before a

theorem atEach_nil : AtEach P [] := fun before _ _ h =>
  (List.append_ne_nil_of_right_ne_nil before (List.cons_ne_nil _ _) h.symm).elim

theorem AtEach.of_append (h : AtEach P (as ++ as')) : AtEach P as := by
  rintro before a after rfl
  exact h before a (after ++ as') (by rw [List.append_assoc, List.cons_append])

theorem atEach_concat : AtEach P (as ++ [a]) ↔ AtEach P as ∧ P as a := by
  constructor
  · exact fun h => ⟨h.of_append, h as a [] rfl⟩
  · rintro ⟨h, h_a⟩ before b after h_eq
    rcases List.eq_nil_or_concat after with rfl | ⟨after, c, rfl⟩
    · obtain ⟨rfl, h_b⟩ := List.append_inj' h_eq rfl
      cases h_b
      exact h_a
    · rw [List.concat_eq_append, ← List.cons_append, ← List.append_assoc] at h_eq
      exact h before b after (List.append_inj' h_eq rfl).1

/-- What holds at each element holds at the first, and at each of the others after it. -/
theorem atEach_cons : AtEach P (a :: as) ↔ P [] a ∧ AtEach (fun before => P (a :: before)) as := by
  constructor
  · intro h
    refine ⟨h [] a as rfl, ?_⟩
    rintro before b after rfl
    exact h (a :: before) b after rfl
  · rintro ⟨h_a, h⟩ before b after h_eq
    cases before with
    | nil =>
      cases h_eq
      exact h_a
    | cons c before =>
      cases h_eq
      exact h before b after rfl

end AtEach

/-! ### Watch channels -/

/-- `tokio::sync::watch`: the value that was sent last, and its version. A receiver keeps the
version it has seen; `changed` is ready when there is a newer one, and marks it seen. -/
structure Watch (α : Type) where
  value : α
  version : ℕ
  deriving DecidableEq

namespace Watch

variable {α : Type}

/-- `watch::channel`: the version that a new receiver has seen is the one of `init`. -/
def channel (init : α) : Watch α := ⟨init, 0⟩

/-- `Sender::send` -/
def send (w : Watch α) (value : α) : Watch α := ⟨value, w.version + 1⟩

@[simp] theorem value_channel (init : α) : (channel init).value = init := rfl

@[simp] theorem version_channel (init : α) : (channel init).version = 0 := rfl

@[simp] theorem value_send (w : Watch α) (value : α) : (w.send value).value = value := rfl

@[simp] theorem version_send (w : Watch α) (value : α) : (w.send value).version = w.version + 1 :=
  rfl

end Watch

end V2ray
