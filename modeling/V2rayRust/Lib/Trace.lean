import Mathlib.Data.List.Basic
import V2rayRust.Lib.Fault

/-!
# Computations that make calls

A computation over an outside world that is only seen through the calls it makes: `Trace`
keeps the calls in order, and the value it returned or what stopped it. A computation that
stops keeps the calls made so far, so a statement about `calls` holds of failed runs too.
-/

namespace V2ray

/-- What stops a computation: an `io::Error` with its message, or a fault. -/
inductive Stop
  | err (message : String)
  | fault (f : Fault)
  deriving DecidableEq, Repr

/-- The calls of a run, and its end. -/
structure Trace (ε σ α : Type) where
  calls : List ε
  result : Except σ α

namespace Trace

variable {ε σ α β γ : Type}

instance : Monad (Trace ε σ) where
  pure a := ⟨[], .ok a⟩
  bind x f :=
    match x.result with
    | .ok a => ⟨x.calls ++ (f a).calls, (f a).result⟩
    | .error e => ⟨x.calls, .error e⟩

/-- Make the call `e`; the world answers `answer`. -/
def call (e : ε) (answer : Except σ α) : Trace ε σ α := ⟨[e], answer⟩

/-- A step that makes no call. -/
def lift (x : Except σ α) : Trace ε σ α := ⟨[], x⟩

@[simp] theorem calls_pure (a : α) : (pure a : Trace ε σ α).calls = [] := rfl

@[simp] theorem result_pure (a : α) : (pure a : Trace ε σ α).result = .ok a := rfl

@[simp] theorem calls_lift (x : Except σ α) : (lift x : Trace ε σ α).calls = [] := rfl

@[simp] theorem result_lift (x : Except σ α) : (lift x : Trace ε σ α).result = x := rfl

theorem bind_of_ok {x : Trace ε σ α} {a : α} (h : x.result = .ok a) (f : α → Trace ε σ β) :
    x >>= f = ⟨x.calls ++ (f a).calls, (f a).result⟩ := by
  change (match x.result with
    | .ok a => (⟨x.calls ++ (f a).calls, (f a).result⟩ : Trace ε σ β)
    | .error e => ⟨x.calls, .error e⟩) = _
  rw [h]

theorem bind_of_error {x : Trace ε σ α} {e : σ} (h : x.result = .error e)
    (f : α → Trace ε σ β) : x >>= f = ⟨x.calls, .error e⟩ := by
  change (match x.result with
    | .ok a => (⟨x.calls ++ (f a).calls, (f a).result⟩ : Trace ε σ β)
    | .error e => ⟨x.calls, .error e⟩) = _
  rw [h]

@[simp] theorem pure_bind (a : α) (f : α → Trace ε σ β) : (pure a : Trace ε σ α) >>= f = f a :=
  rfl

instance : LawfulMonad (Trace ε σ) :=
  LawfulMonad.mk' (Trace ε σ)
    (fun x => by
      cases h : x.result with
      | ok a =>
        change x >>= (fun a => pure (id a)) = x
        rw [bind_of_ok h]
        cases x
        cases h
        rw [calls_pure, List.append_nil]
        rfl
      | error e =>
        change x >>= (fun a => pure (id a)) = x
        rw [bind_of_error h]
        cases x
        cases h
        rfl)
    (fun _ _ => rfl)
    (fun x f g => by
      cases h : x.result with
      | error e => rw [bind_of_error h, bind_of_error h, bind_of_error rfl]
      | ok a =>
        rw [bind_of_ok h, bind_of_ok h]
        cases hf : (f a).result with
        | error e => rw [bind_of_error hf, bind_of_error rfl]
        | ok b => rw [bind_of_ok hf, bind_of_ok rfl, List.append_assoc])

/-- Calls, and then calls and what comes after them. -/
theorem bind_ok_bind (cs ds : List ε) (f : Unit → Trace ε σ β) :
    ((⟨cs, .ok ()⟩ : Trace ε σ Unit) >>= fun _ => (⟨ds, .ok ()⟩ : Trace ε σ Unit) >>= f) =
      (⟨cs ++ ds, .ok ()⟩ : Trace ε σ Unit) >>= f :=
  (bind_assoc _ _ _).symm

/-- A run returned exactly if both of its parts did. -/
theorem bind_result_eq_ok {x : Trace ε σ α} {f : α → Trace ε σ β} {b : β} :
    (x >>= f).result = .ok b ↔ ∃ a, x.result = .ok a ∧ (f a).result = .ok b := by
  cases h : x.result with
  | ok a =>
    rw [bind_of_ok h]
    exact ⟨fun hb => ⟨a, rfl, hb⟩, fun ⟨_, ha, hb⟩ => (by cases ha; exact hb)⟩
  | error e =>
    rw [bind_of_error h]
    exact ⟨fun hb => (by cases hb), fun ⟨_, ha, _⟩ => (by cases ha)⟩

/-- What a run stopped at, one of its parts stopped at. -/
theorem bind_result_eq_error {x : Trace ε σ α} {f : α → Trace ε σ β} {e : σ} :
    (x >>= f).result = .error e ↔
      x.result = .error e ∨ ∃ a, x.result = .ok a ∧ (f a).result = .error e := by
  -- the second part runs only if the first one is ok
  cases h : x.result with
  | ok a =>
    rw [bind_of_ok h]
    constructor
    · exact fun he => Or.inr ⟨a, rfl, he⟩
    · rintro (he | ⟨_, ha, he⟩)
      · cases he
      · cases ha
        exact he
  | error e' =>
    rw [bind_of_error h]
    constructor
    · intro he
      cases he
      exact Or.inl rfl
    · rintro (he | ⟨_, ha, _⟩)
      · cases he
        rfl
      · cases ha

/-! ### A loop of calls -/

/-- A run of a loop that makes one call for each element of a list: it ends after the last
element or at the first call that fails. `ev` is the call and `res` its answer. -/
inductive FoldRun (ev : β → α → ε) (res : β → α → Except σ α) :
    List β → α → List ε → Except σ α → Prop
  | nil (a : α) : FoldRun ev res [] a [] (.ok a)
  | stop {x : β} {xs : List β} {a : α} {e : σ} (fails : res x a = .error e) :
      FoldRun ev res (x :: xs) a [ev x a] (.error e)
  | step {x : β} {xs : List β} {a a' : α} {cs : List ε} {r : Except σ α}
      (succeeds : res x a = .ok a') (rest : FoldRun ev res xs a' cs r) :
      FoldRun ev res (x :: xs) a (ev x a :: cs) r

/-- What a loop stopped at, one of its calls stopped at. -/
theorem FoldRun.exists_of_error {ev : β → α → ε} {res : β → α → Except σ α} {xs : List β} {a : α}
    {cs : List ε} {e : σ} (h : FoldRun ev res xs a cs (.error e)) :
    ∃ x ∈ xs, ∃ a', res x a' = .error e := by
  generalize h_r : Except.error e = r at h
  induction h with
  | nil a => cases h_r
  | @stop x xs a e' fails =>
    cases h_r
    exact ⟨x, List.mem_cons_self, a, fails⟩
  | step _ _ ih =>
    obtain ⟨y, hy, h_y⟩ := ih h_r
    exact ⟨y, List.mem_cons_of_mem _ hy, h_y⟩

/-- A fold that makes one call for each element is a run of such calls. -/
theorem foldRun_foldlM (ev : β → α → ε) (res : β → α → Except σ α) (xs : List β) (a : α) :
    FoldRun ev res xs a
      (xs.foldlM (fun a x => call (ev x a) (res x a)) a : Trace ε σ α).calls
      (xs.foldlM (fun a x => call (ev x a) (res x a)) a : Trace ε σ α).result := by
  induction xs generalizing a with
  | nil => exact .nil a
  | cons x xs ih =>
    rw [List.foldlM_cons]
    cases h : res x a with
    | ok a' => exact .step h (ih a')
    | error e => exact .stop h

/-- A loop whose calls all succeed makes all of them. -/
theorem forM_call (xs : List β) (ev : β → ε) :
    (xs.forM fun x => (call (ev x) (.ok ()) : Trace ε σ Unit)) = ⟨xs.map ev, .ok ()⟩ := by
  induction xs with
  | nil => rfl
  | cons x xs ih =>
    show (call (ev x) (.ok ()) >>= fun _ => xs.forM fun x => call (ev x) (.ok ())) = _
    rw [ih]
    rfl

end Trace

end V2ray
