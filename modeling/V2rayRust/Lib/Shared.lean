import Mathlib.Logic.Function.Basic
import V2rayRust.Lib.Tasks

/-!
# Objects shared behind a flag

Threads that use one object, each under a flag that it sets before it touches the object and
clears afterwards; a thread that finds the flag set gives up at once. An operation takes time:
a thread reads the object, and writes it back later, so without the flag updates would be lost.
With it, whatever the interleaving, the object is as if the operations had been carried out one
after the other, in the order in which they finished (`orderly_of_run`), and the holder of the
flag can always go on until it clears it (`clears_of_orderly`).
-/

namespace V2ray

/-- Where a thread is. -/
inductive Place (S ι ρ : Type)
  | idle
  /-- it has set the flag -/
  | holding (op : ι)
  /-- it works on what it found -/
  | working (op : ι) (found : S)
  /-- it has its answer, and has not cleared the flag yet -/
  | leaving (op : ι) (answer : ρ)

/-- An object behind a flag, the threads that use it, and the logs of what they did. -/
structure Shared (T S ι ρ : Type) where
  locked : Bool
  object : S
  place : T → Place S ι ρ
  /-- the operations that were carried out, in the order in which they finished -/
  done : List (ι × ρ)
  /-- what the threads were answered; no answer if the flag was set -/
  returned : List (ι × Option ρ)

/-- What a thread does next. -/
inductive Move (T ι : Type)
  /-- a compare and exchange on the flag, for the sake of `op` -/
  | attempt (op : ι)
  | start (t : T)
  | finish (t : T)
  /-- the flag is cleared, and the answer returned -/
  | leave (t : T)

namespace Shared

variable {T S ι ρ : Type} [DecidableEq T] (who : ι → T) (apply : ι → S → S × ρ)

/-- Nobody has used the object yet. -/
def fresh (object : S) : Shared T S ι ρ := ⟨false, object, fun _ => .idle, [], []⟩

def move (s : Shared T S ι ρ) (t : T) (place : Place S ι ρ) : Shared T S ι ρ :=
  { s with place := Function.update s.place t place }

def step (s : Shared T S ι ρ) : Move T ι → Option (Shared T S ι ρ)
  | .attempt op =>
    match s.place (who op) with
    | .idle =>
      if s.locked then some { s with returned := s.returned ++ [(op, none)] }
      else some { s.move (who op) (.holding op) with locked := true }
    | _ => none
  | .start t =>
    match s.place t with
    | .holding op => some (s.move t (.working op s.object))
    | _ => none
  | .finish t =>
    match s.place t with
    | .working op found =>
      some { s.move t (.leaving op (apply op found).2) with
        object := (apply op found).1
        done := s.done ++ [(op, (apply op found).2)] }
    | _ => none
  | .leave t =>
    match s.place t with
    | .leaving op answer =>
      some { s.move t .idle with
        locked := false
        returned := s.returned ++ [(op, some answer)] }
    | _ => none

/-- The operations one after the other: the object after them, and their answers. -/
def replay (object : S) : List ι → S × List ρ
  | [] => (object, [])
  | op :: ops =>
    ((replay (apply op object).1 ops).1, (apply op object).2 :: (replay (apply op object).1 ops).2)

variable {apply}

/-- Later operations begin with the object that the earlier ones leave. -/
theorem replay_append {object : S} {ops ops' : List ι} : replay apply object (ops ++ ops') =
    ((replay apply (replay apply object ops).1 ops').1,
      (replay apply object ops).2 ++ (replay apply (replay apply object ops).1 ops').2) := by
  induction ops generalizing object with
  | nil => rfl
  | cons op ops ih =>
    rw [List.cons_append, replay, ih]
    rfl

/-! ### What a step does -/

variable (apply) in
/-- Every way in which a move changes the state. -/
inductive Moved (s : Shared T S ι ρ) : Move T ι → Shared T S ι ρ → Prop
  | refused {op : ι} (idle : s.place (who op) = .idle) (locked : s.locked = true) :
      Moved s (.attempt op) { s with returned := s.returned ++ [(op, none)] }
  | locked {op : ι} (idle : s.place (who op) = .idle) (unlocked : s.locked = false) :
      Moved s (.attempt op) { s.move (who op) (.holding op) with locked := true }
  | started {t : T} {op : ι} (holding : s.place t = .holding op) :
      Moved s (.start t) (s.move t (.working op s.object))
  | finished {t : T} {op : ι} {found : S} (working : s.place t = .working op found) :
      Moved s (.finish t) { s.move t (.leaving op (apply op found).2) with
        object := (apply op found).1
        done := s.done ++ [(op, (apply op found).2)] }
  | left {t : T} {op : ι} {answer : ρ} (leaving : s.place t = .leaving op answer) :
      Moved s (.leave t) { s.move t .idle with
        locked := false
        returned := s.returned ++ [(op, some answer)] }

variable {who} {s s' : Shared T S ι ρ} {m : Move T ι}

/-- A step of the model is one of the moves. -/
theorem moved_of_step (h : s.step who apply m = some s') : Moved who apply s m s' := by
  cases m with
  -- the flag is looked at and set in one step
  | attempt op =>
    unfold step at h
    dsimp only at h
    split at h
    · next h_idle =>
      split at h
      · next h_locked =>
        cases h
        exact .refused h_idle h_locked
      · next h_unlocked =>
        cases h
        exact .locked h_idle (Bool.eq_false_iff.mpr h_unlocked)
    · cases h
  -- each of the others asks for the place that the thread has to be at
  | start t =>
    unfold step at h
    dsimp only at h
    split at h
    · next op h_holding =>
      cases h
      exact .started h_holding
    · cases h
  | finish t =>
    unfold step at h
    dsimp only at h
    split at h
    · next op found h_working =>
      cases h
      exact .finished h_working
    · cases h
  | leave t =>
    unfold step at h
    dsimp only at h
    split at h
    · next op answer h_leaving =>
      cases h
      exact .left h_leaving
    · cases h

/-! ### One after the other -/

end Shared

namespace Place

variable {S ι ρ : Type}

/-- The operation that a thread is at. -/
def op : Place S ι ρ → Option ι
  | idle => none
  | holding op | working op _ | leaving op _ => some op

/-- What has been done, but not returned. -/
def unreturned : Place S ι ρ → List (ι × ρ)
  | leaving op answer => [(op, answer)]
  | _ => []

/-- How many moves a thread is from being idle. -/
def rank : Place S ι ρ → ℕ
  | idle => 0
  | leaving .. => 1
  | working .. => 2
  | holding _ => 3

end Place

namespace Shared

variable {T S ι ρ : Type} [DecidableEq T] (who : ι → T) (apply : ι → S → S × ρ)

/-- What the operations of a thread were answered, in order. -/
def answersOf (t : T) (s : Shared T S ι ρ) : List (ι × ρ) :=
  s.returned.filterMap fun x => if who x.1 = t then x.2.map (x.1, ·) else none

/-- What a thread has carried out, in order. -/
def doneBy (t : T) (s : Shared T S ι ρ) : List (ι × ρ) := s.done.filter (who ·.1 = t)

/-- The threads have not been in each other's way. -/
structure Orderly (init : S) (s : Shared T S ι ρ) : Prop where
  /-- a thread is at its own operations -/
  own : ∀ t op, (s.place t).op = some op → who op = t
  alone : ∀ t t', s.place t ≠ .idle → s.place t' ≠ .idle → t = t'
  locked_iff : s.locked = true ↔ ∃ t, s.place t ≠ .idle
  /-- nobody else has changed what a thread works on -/
  found_eq : ∀ t op found, s.place t = .working op found → found = s.object
  replay_eq : replay apply init (s.done.map Prod.fst) = (s.object, s.done.map Prod.snd)
  /-- a thread has been told of what it has done, and of nothing else -/
  answers_eq : ∀ t, s.answersOf who t ++ (s.place t).unreturned = s.doneBy who t

variable {who apply} {s s' : Shared T S ι ρ} {m : Move T ι} {init : S}

theorem orderly_fresh (init : S) : Orderly who apply init (fresh init) where
  own _ _ h := by cases h
  alone _ _ h _ := (h rfl).elim
  locked_iff := ⟨fun h => (by cases h), fun ⟨_, h⟩ => (h rfl).elim⟩
  found_eq _ _ _ h := by cases h
  replay_eq := rfl
  answers_eq _ := rfl

/-- While the flag is clear, nobody is at the object. -/
theorem Orderly.idle_of_unlocked (h : Orderly who apply init s) (h_locked : s.locked = false)
    (t : T) : s.place t = .idle := by
  by_contra h_busy
  have h_true := h.locked_iff.mpr ⟨t, h_busy⟩
  rw [h_locked] at h_true
  cases h_true

theorem Orderly.locked_of_place (h : Orderly who apply init s) {t : T}
    (h_place : s.place t ≠ .idle) : s.locked = true := h.locked_iff.mpr ⟨t, h_place⟩

/-- The others are idle while one is not. -/
theorem Orderly.idle_of_ne (h : Orderly who apply init s) {t t' : T} (h_place : s.place t ≠ .idle)
    (h_ne : t' ≠ t) : s.place t' = .idle := by
  by_contra h_busy
  exact h_ne (h.alone t' t h_busy h_place)

/-- A thread moves while the others are idle. -/
theorem orderly_of_move {t : T} {p : Place S ι ρ} {locked : Bool} {object : S}
    {done : List (ι × ρ)} {returned : List (ι × Option ρ)}
    (h_idle : ∀ t', t' ≠ t → s.place t' = .idle) (h_own : ∀ op, p.op = some op → who op = t)
    (h_locked : locked = true ↔ p ≠ .idle)
    (h_found : ∀ op found, p = .working op found → found = object)
    (h_replay : replay apply init (done.map Prod.fst) = (object, done.map Prod.snd))
    (h_answers : ∀ t', answersOf who t' { s with returned } ++
      (if t' = t then p else s.place t').unreturned = doneBy who t' { s with done }) :
    Orderly who apply init { s.move t p with locked, object, done, returned } := by
  -- whatever is asked of a place is asked of `t`, or of an idle thread
  have h_same : (s.move t p).place t = p := Function.update_self _ _ _
  have h_other {t' : T} (h_ne : t' ≠ t) : (s.move t p).place t' = .idle :=
    (Function.update_of_ne h_ne _ _).trans (h_idle t' h_ne)
  refine ⟨?_, ?_, ?_, ?_, h_replay, ?_⟩
  · -- a thread has operations of its own
    intro t' op h_op
    by_cases h_eq : t' = t
    · subst h_eq
      exact h_own op ((congrArg Place.op h_same).symm.trans h_op)
    · cases (congrArg Place.op (h_other h_eq)).symm.trans h_op
  · -- two threads that are not idle are both `t`
    intro t₁ t₂ h₁ h₂
    have h_eq {t' : T} (h : (s.move t p).place t' ≠ .idle) : t' = t := by
      by_contra h_ne
      exact h (h_other h_ne)
    exact (h_eq h₁).trans (h_eq h₂).symm
  · -- the flag is set as long as `t` is not idle
    rw [h_locked]
    constructor
    · intro h_busy
      exact ⟨t, fun h => h_busy (h_same.symm.trans h)⟩
    · rintro ⟨t', h_busy⟩ h_p
      by_cases h_eq : t' = t
      · subst h_eq
        exact h_busy (h_same.trans h_p)
      · exact h_busy (h_other h_eq)
  · -- what a thread works on is what the object is now
    intro t' op found h_working
    by_cases h_eq : t' = t
    · subst h_eq
      exact h_found op found (h_same.symm.trans h_working)
    · cases (h_other h_eq).symm.trans h_working
  · -- what the threads have got, or have still to get
    intro t'
    have h_place : (s.move t p).place t' = if t' = t then p else s.place t' :=
      Function.update_apply _ _ _ _
    show answersOf who t' { s with returned } ++ ((s.move t p).place t').unreturned = _
    rw [h_place]
    exact h_answers t'

/-- **Every move keeps the order.** -/
theorem Orderly.step (h : Orderly who apply init s) (h_step : s.step who apply m = some s') :
    Orderly who apply init s' := by
  cases moved_of_step h_step with
  | @refused op idle locked =>
    -- a refused attempt is in the log, and has no answer
    have h_answers (t : T) :
        answersOf who t { s with returned := s.returned ++ [(op, none)] } = s.answersOf who t := by
      unfold answersOf
      rw [List.filterMap_append]
      simp
    exact ⟨h.own, h.alone, h.locked_iff, h.found_eq, h.replay_eq, fun t =>
      (congrArg (· ++ _) (h_answers t)).trans (h.answers_eq t)⟩
  | @locked op idle unlocked =>
    refine orderly_of_move (fun t' _ => h.idle_of_unlocked unlocked t') ?_ ?_ ?_ h.replay_eq ?_
    · intro op' h_op
      cases h_op
      rfl
    · exact ⟨fun _ h_p => (by cases h_p), fun _ => rfl⟩
    · intro _ _ h_p
      cases h_p
    · intro t'
      show s.answersOf who t' ++ _ = s.doneBy who t'
      rw [← h.answers_eq t']
      split
      · next h_eq =>
        rw [h_eq, idle]
        rfl
      · rfl
  | @started t op holding =>
    have h_busy : s.place t ≠ .idle := by
      rw [holding]
      exact fun h_p => by cases h_p
    refine orderly_of_move (fun t' h_ne => h.idle_of_ne h_busy h_ne) ?_ ?_ ?_ h.replay_eq ?_
    · intro op' h_op
      apply h.own t
      rw [holding]
      exact h_op
    · exact ⟨fun _ h_p => (by cases h_p), fun _ => h.locked_of_place h_busy⟩
    · intro _ _ h_p
      cases h_p
      rfl
    · intro t'
      rw [← h.answers_eq t']
      split
      · next h_eq =>
        rw [h_eq, holding]
        rfl
      · rfl
  | @finished t op found working =>
    have h_busy : s.place t ≠ .idle := by
      rw [working]
      exact fun h_p => by cases h_p
    have h_who : who op = t := h.own t op (by rw [working]; rfl)
    -- what it found is still there, so its operation comes after all that are done
    have h_found := h.found_eq t op found working
    subst h_found
    refine orderly_of_move (fun t' h_ne => h.idle_of_ne h_busy h_ne) ?_ ?_ ?_ ?_ ?_
    · intro op' h_op
      cases h_op
      exact h_who
    · exact ⟨fun _ h_p => (by cases h_p), fun _ => h.locked_of_place h_busy⟩
    · intro _ _ h_p
      cases h_p
    · rw [List.map_append, replay_append, h.replay_eq, List.map_append]
      rfl
    · intro t'
      have h_t' := h.answers_eq t'
      unfold doneBy at h_t' ⊢
      rw [List.filter_append, ← h_t']
      split
      · next h_eq =>
        rw [h_eq, working, List.filter_cons_of_pos (by simpa using h_who)]
        exact congrArg (· ++ _) (List.append_nil _).symm
      · next h_ne =>
        rw [List.filter_cons_of_neg (by simpa using fun h => h_ne (h.symm.trans h_who))]
        exact (List.append_nil _).symm
  | @left t op answer leaving =>
    have h_busy : s.place t ≠ .idle := by
      rw [leaving]
      exact fun h_p => by cases h_p
    have h_who : who op = t := h.own t op (by rw [leaving]; rfl)
    refine orderly_of_move (fun t' h_ne => h.idle_of_ne h_busy h_ne) ?_ ?_ ?_ h.replay_eq ?_
    · intro _ h_op
      cases h_op
    · exact ⟨fun h_l => (by cases h_l), fun h_p => (h_p rfl).elim⟩
    · intro _ _ h_p
      cases h_p
    · intro t'
      have h_t' := h.answers_eq t'
      show _ = s.doneBy who t'
      rw [← h_t']
      unfold answersOf
      rw [List.filterMap_append]
      split
      · next h_eq =>
        rw [h_eq, leaving]
        simp [h_who, Place.unreturned]
      · next h_ne =>
        have h_who' : ¬who op = t' := fun h => h_ne (h.symm.trans h_who)
        simp [h_who']

/-- **Runs are orderly**: at most one thread is at the object, and the object and all answers
are those of the operations one after the other. -/
theorem orderly_of_run {ms : List (Move T ι)}
    (h : runFrom (Shared.step who apply) (fresh init) ms = some s) : Orderly who apply init s :=
  run_induction (P := fun _ s => Orderly who apply init s) (orderly_fresh init)
    (fun _ _ _ _ _ ih h_step => ih.step h_step) h

/-! ### Progress -/

/-- Whose move it is. -/
def mover (who : ι → T) : Move T ι → T
  | .attempt op => who op
  | .start t | .finish t | .leave t => t

/-- An idle party that finds the lock free takes it. -/
theorem step_attempt {op : ι} (h : s.place (who op) = .idle) (h_locked : s.locked = false) :
    s.step who apply (.attempt op) =
      some { s.move (who op) (.holding op) with locked := true } := by
  unfold step
  dsimp only
  rw [h]
  dsimp only
  rw [if_neg (by rw [h_locked]; exact Bool.false_ne_true)]

theorem step_start {t : T} {op : ι} (h : s.place t = .holding op) :
    s.step who apply (.start t) = some (s.move t (.working op s.object)) := by
  unfold step
  dsimp only
  rw [h]

theorem step_finish {t : T} {op : ι} {found : S} (h : s.place t = .working op found) :
    s.step who apply (.finish t) = some { s.move t (.leaving op (apply op found).2) with
      object := (apply op found).1
      done := s.done ++ [(op, (apply op found).2)] } := by
  unfold step
  dsimp only
  rw [h]

theorem step_leave {t : T} {op : ι} {answer : ρ} (h : s.place t = .leaving op answer) :
    s.step who apply (.leave t) = some { s.move t .idle with
      locked := false
      returned := s.returned ++ [(op, some answer)] } := by
  unfold step
  dsimp only
  rw [h]

theorem place_move (s : Shared T S ι ρ) (t : T) (p : Place S ι ρ) : (s.move t p).place t = p :=
  Function.update_self _ _ _

/-- **Nobody waits for a thread that has to wait**: what is not idle has a move, which takes it
nearer to being idle, and the moves of the others do not take it back. -/
theorem exists_step {t : T} (h : s.place t ≠ .idle) :
    ∃ m s', mover who m = t ∧ s.step who apply m = some s' ∧
      (s'.place t).rank + 1 = (s.place t).rank := by
  cases h_place : s.place t with
  | idle => exact (h h_place).elim
  | holding op =>
    exact ⟨.start t, _, rfl, step_start h_place, congrArg (·.rank + 1) (place_move s t _)⟩
  | working op found =>
    refine ⟨.finish t, _, rfl, step_finish h_place, ?_⟩
    exact congrArg (·.rank + 1) (place_move s t (.leaving op (apply op found).2))
  | leaving op answer =>
    exact ⟨.leave t, _, rfl, step_leave h_place, congrArg (·.rank + 1) (place_move s t .idle)⟩

/-- Who is refused is so because of another thread. -/
theorem Orderly.refused (h : Orderly who apply init s) {op : ι} (h_idle : s.place (who op) = .idle)
    (h_locked : s.locked = true) : ∃ t, t ≠ who op ∧ s.place t ≠ .idle := by
  obtain ⟨t, h_busy⟩ := h.locked_iff.mp h_locked
  refine ⟨t, ?_, h_busy⟩
  rintro rfl
  exact h_busy h_idle

/-! ### One thread at a time -/

/-- An operation from its attempt to its answer. -/
def whole (who : ι → T) (op : ι) : List (Move T ι) :=
  [.attempt op, .start (who op), .finish (who op), .leave (who op)]

/-- Nobody is at the object. -/
def Quiet (s : Shared T S ι ρ) : Prop := s.locked = false ∧ ∀ t, s.place t = .idle

variable (who apply) in
/-- An operation that nobody interrupts does what it does to the object alone. -/
theorem run_whole (h : s.Quiet) (op : ι) :
    ∃ s', runFrom (step who apply) s (whole who op) = some s' ∧ s'.Quiet ∧
      s'.object = (apply op s.object).1 ∧
      s'.returned = s.returned ++ [(op, some (apply op s.object).2)] := by
  obtain ⟨h_locked, h_idle⟩ := h
  let s₁ : Shared T S ι ρ := { s.move (who op) (.holding op) with locked := true }
  let s₂ := s₁.move (who op) (.working op s.object)
  let s₃ := { s₂.move (who op) (.leaving op (apply op s.object).2) with
    object := (apply op s.object).1
    done := s.done ++ [(op, (apply op s.object).2)] }
  let s₄ := { s₃.move (who op) .idle with
    locked := false
    returned := s.returned ++ [(op, some (apply op s.object).2)] }
  -- each of the four steps finds the place that the one before has left
  have h₁ : s.step who apply (.attempt op) = some s₁ := step_attempt (h_idle _) h_locked
  have h₂ : s₁.step who apply (.start (who op)) = some s₂ := step_start (place_move s _ _)
  have h₃ : s₂.step who apply (.finish (who op)) = some s₃ := step_finish (place_move s₁ _ _)
  have h₄ : s₃.step who apply (.leave (who op)) = some s₄ := step_leave (place_move s₂ _ _)
  refine ⟨s₄, ?_, ⟨rfl, ?_⟩, rfl, rfl⟩
  · exact runFrom_cons.mpr ⟨s₁, h₁, runFrom_cons.mpr ⟨s₂, h₂, runFrom_cons.mpr ⟨s₃, h₃,
      runFrom_cons.mpr ⟨s₄, h₄, rfl⟩⟩⟩⟩
  · intro t
    by_cases h_t : t = who op
    · rw [h_t]
      exact place_move s₃ _ _
    · -- the others have not been touched
      calc s₄.place t = s₃.place t := Function.update_of_ne h_t _ _
        _ = s₂.place t := Function.update_of_ne h_t _ _
        _ = s₁.place t := Function.update_of_ne h_t _ _
        _ = s.place t := Function.update_of_ne h_t _ _
        _ = .idle := h_idle t

variable (who apply) in
/-- **Whole operations are never refused**: with one thread at a time, the flag makes no
difference. -/
theorem run_wholes (h : s.Quiet) (ops : List ι) :
    ∃ s', runFrom (step who apply) s (ops.flatMap (whole who)) = some s' ∧ s'.Quiet ∧
      s'.object = (replay apply s.object ops).1 ∧
      s'.returned = s.returned ++ ops.zip ((replay apply s.object ops).2.map some) := by
  induction ops generalizing s with
  | nil => exact ⟨s, rfl, h, rfl, (List.append_nil _).symm⟩
  | cons op ops ih =>
    obtain ⟨m, h_m, h_quiet, h_object, h_returned⟩ := run_whole who apply h op
    obtain ⟨s', h_s', h_quiet', h_object', h_returned'⟩ := ih h_quiet
    refine ⟨s', ?_, h_quiet', ?_, ?_⟩
    · rw [List.flatMap_cons]
      exact runFrom_append.mpr ⟨m, h_m, h_s'⟩
    · rw [h_object', h_object]
      rfl
    · rw [h_returned', h_object, h_returned, List.append_assoc]
      rfl

end Shared

end V2ray
