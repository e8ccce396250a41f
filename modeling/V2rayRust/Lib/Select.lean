import Mathlib.Data.ENat.Basic
import Mathlib.Data.ENat.Lattice
import V2rayRust.Lib.Fault
import V2rayRust.Lib.Poll

/-!
# Futures, and two of which one is waited for

A future is polled until it is ready (`pollRun`). What every poll keeps, the run keeps, and two
futures whose polls answer alike answer alike (`pollRun_lockstep`). A poll may panic; then the run
is that panic, and so is a run of two futures of which one panics.

`tokio::select!` polls two futures in turn, in an order that it draws anew for each round, until one
of them is ready, and drops the other. Where each future tells how many polls it needs to the last
thing it has to do (`drains`) and to its end (`ends`), so does the pair
(`selectRun_drained_iff`): the future that is dropped has had as many polls as the one that was
ready, or one less.
-/

namespace V2ray

/-- The same answer, with another value. -/
def Poll.map {α β : Type} (f : α → β) : Poll α → Poll β
  | pending => pending
  | ready a => ready (f a)

section PollRun

variable {S T α β : Type} (poll : S → Except Fault (S × Poll α))

/-- So many polls of a future, until it is ready. A poll may panic. -/
def pollRun : ℕ → S → Except Fault (S × Poll α)
  | 0, s => .ok (s, .pending)
  | n + 1, s => do
    match ← poll s with
    | (s, .pending) => pollRun n s
    | (s, .ready a) => return (s, .ready a)

variable {poll}

/-- What every poll keeps, a run keeps; and it ends as one of its polls does. -/
theorem pollRun_keeps {P : S → Prop} {Q : S → α → Prop}
    (h : ∀ s x, P s → poll s = .ok x → P x.1 ∧ ∀ a, x.2 = .ready a → Q x.1 a) {n : ℕ} {s : S}
    (h_s : P s) {x : S × Poll α} (h_run : pollRun poll n s = .ok x) :
    P x.1 ∧ ∀ a, x.2 = .ready a → Q x.1 a := by
  induction n generalizing s with
  | zero =>
    cases h_run
    exact ⟨h_s, fun a h_a => (by cases h_a)⟩
  | succ n ih =>
    obtain ⟨⟨s', answer⟩, h_poll, h_run⟩ := bind_eq_ok.mp h_run
    obtain ⟨h_state, h_ready⟩ := h s _ h_s h_poll
    cases answer with
    | pending => exact ih h_state h_run
    | ready a =>
      cases h_run
      exact ⟨h_state, h_ready⟩

/-- A future does as another one does, which does not panic: it answers the same, and if it panics
then the other one is past that point. -/
def InStep (R : S → T → Prop) (Past : Fault → T → Prop) (f : α → β) (y : T × Poll β) :
    Except Fault (S × Poll α) → Prop
  | .ok x => R x.1 y.1 ∧ y.2 = x.2.map f
  | .error e => Past e y.1

/-- **Lockstep**: futures that are polled alike are ready after as many polls, unless the first one
panics; the second one goes on then, and what it is past it stays past. -/
theorem pollRun_lockstep {pollT : T → Except Fault (T × Poll β)} {R : S → T → Prop}
    {Past : Fault → T → Prop} {f : α → β}
    (h : ∀ s t, R s t → ∃ y, pollT t = .ok y ∧ InStep R Past f y (poll s))
    (h_past : ∀ e t, Past e t → ∃ y, pollT t = .ok y ∧ Past e y.1) (n : ℕ) {s : S} {t : T}
    (h_st : R s t) : ∃ y, pollRun pollT n t = .ok y ∧ InStep R Past f y (pollRun poll n s) := by
  have h_later (e : Fault) (n : ℕ) {t : T} (h_t : Past e t) :
      ∃ y, pollRun pollT n t = .ok y ∧ Past e y.1 := by
    induction n generalizing t with
    | zero => exact ⟨_, rfl, h_t⟩
    | succ n ih =>
      obtain ⟨⟨t', answer⟩, h_poll, h_t'⟩ := h_past e t h_t
      rw [pollRun, h_poll, ok_bind]
      cases answer with
      | pending => exact ih h_t'
      | ready b => exact ⟨_, rfl, h_t'⟩
  induction n generalizing s t with
  | zero => exact ⟨_, rfl, h_st, rfl⟩
  | succ n ih =>
    obtain ⟨⟨t', answer'⟩, h_pollT, h_step⟩ := h s t h_st
    rw [pollRun, pollRun, h_pollT, ok_bind]
    cases h_poll : poll s with
    | error e =>
      rw [h_poll] at h_step
      -- the first future is gone, and the second one is polled on its own
      cases answer' with
      | pending => exact h_later e n h_step
      | ready b => exact ⟨_, rfl, h_step⟩
    | ok x =>
      obtain ⟨s', answer⟩ := x
      rw [h_poll] at h_step
      obtain ⟨h_states, h_answers⟩ := h_step
      -- both go on or both are ready
      cases answer with
      | pending =>
        obtain rfl : answer' = .pending := h_answers
        exact ih h_states
      | ready a =>
        obtain rfl : answer' = .ready (f a) := h_answers
        exact ⟨_, rfl, h_states, rfl⟩

end PollRun

section Select

variable {S T α β : Type} (pollS : S → Except Fault (S × Poll α))
  (pollT : T → Except Fault (T × Poll β))

/-- The states of both futures, and whether one was ready. -/
structure Selected (S T : Type) where
  left : S
  right : T
  done : Bool

/-- The first future is polled, and the second one if it is pending. -/
def pollBoth {F G : Type} (pollF : F → Except Fault (F × Poll α))
    (pollG : G → Except Fault (G × Poll β)) (f : F) (g : G) : Except Fault (F × G × Bool) := do
  match ← pollF f with
  | (f, .ready _) => return (f, g, true)
  | (f, .pending) =>
    match ← pollG g with
    | (g, .ready _) => return (f, g, true)
    | (g, .pending) => return (f, g, false)

/-- A property that each future keeps is kept when both are polled. -/
theorem pollBoth_keeps {F G : Type} {pollF : F → Except Fault (F × Poll α)}
    {pollG : G → Except Fault (G × Poll β)} {P : F → Prop} {Q : G → Prop}
    (hP : ∀ f x, P f → pollF f = .ok x → P x.1) (hQ : ∀ g x, Q g → pollG g = .ok x → Q x.1)
    {f : F} {g : G} (h_f : P f) (h_g : Q g) {x : F × G × Bool}
    (h : pollBoth pollF pollG f g = .ok x) : P x.1 ∧ Q x.2.1 := by
  obtain ⟨⟨f', answer⟩, h_poll, h⟩ := bind_eq_ok.mp h
  have h_f' := hP f _ h_f h_poll
  cases answer with
  | ready a =>
    cases h
    exact ⟨h_f', h_g⟩
  | pending =>
    obtain ⟨⟨g', answer'⟩, h_poll', h⟩ := bind_eq_ok.mp h
    have h_g' := hQ g _ h_g h_poll'
    cases answer' <;> cases h <;> exact ⟨h_f', h_g'⟩

/-- One round: the future that is drawn is polled first. A panic is one of the task that polls
both. -/
def selectPoll (leftFirst : Bool) (s : S) (t : T) : Except Fault (Selected S T) := do
  if leftFirst then
    let (s, t, done) ← pollBoth pollS pollT s t
    return ⟨s, t, done⟩
  else
    let (t, s, done) ← pollBoth pollT pollS t s
    return ⟨s, t, done⟩

/-- Rounds with these draws, until one future is ready. -/
def selectRun : List Bool → S → T → Except Fault (Selected S T)
  | [], s, t => .ok ⟨s, t, false⟩
  | leftFirst :: draws, s, t => do
    let x ← selectPoll pollS pollT leftFirst s t
    if x.done then return x else selectRun draws x.left x.right

variable {pollS pollT}

/-- A round polls the two futures in one order or in the other. -/
theorem selectPoll_eq_ok {leftFirst : Bool} {s : S} {t : T} {x : Selected S T}
    (h : selectPoll pollS pollT leftFirst s t = .ok x) :
    leftFirst = true ∧ pollBoth pollS pollT s t = .ok (x.left, x.right, x.done) ∨
      leftFirst = false ∧ pollBoth pollT pollS t s = .ok (x.right, x.left, x.done) := by
  unfold selectPoll at h
  cases leftFirst with
  | true =>
    obtain ⟨⟨s', t', done⟩, h_poll, h⟩ := bind_eq_ok.mp h
    cases h
    exact .inl ⟨rfl, h_poll⟩
  | false =>
    obtain ⟨⟨t', s', done⟩, h_poll, h⟩ := bind_eq_ok.mp h
    cases h
    exact .inr ⟨rfl, h_poll⟩

/-- What every poll of a future keeps, a run keeps. -/
theorem selectRun_keeps {P : S → Prop} {Q : T → Prop}
    (hP : ∀ s x, P s → pollS s = .ok x → P x.1) (hQ : ∀ t x, Q t → pollT t = .ok x → Q x.1)
    {draws : List Bool} {s : S} {t : T} (h_s : P s) (h_t : Q t) {x : Selected S T}
    (h_run : selectRun pollS pollT draws s t = .ok x) : P x.left ∧ Q x.right := by
  induction draws generalizing s t with
  | nil =>
    cases h_run
    exact ⟨h_s, h_t⟩
  | cons leftFirst draws ih =>
    obtain ⟨y, h_round, h_run⟩ := bind_eq_ok.mp h_run
    have h_poll : P y.left ∧ Q y.right := by
      rcases selectPoll_eq_ok h_round with ⟨-, h_both⟩ | ⟨-, h_both⟩
      · exact pollBoth_keeps hP hQ h_s h_t h_both
      · exact (pollBoth_keeps hQ hP h_t h_s h_both).symm
    split at h_run
    · cases h_run
      exact h_poll
    · exact ih h_poll.1 h_poll.2 h_run

end Select

/-! ### Polls that are needed -/

/-- How many polls a future needs to the last thing that it has to do, and to its end. -/
structure Span where
  drains : ℕ∞
  ends : ℕ∞

/-- The pair is in time: both futures have done what they have to do when one of them ends. `first`
is polled first in that round. -/
def Span.InTime (first second : Span) : Prop :=
  first.drains ≤ min first.ends second.ends ∧
    second.drains ≤ if first.ends ≤ second.ends then first.ends - 1 else second.ends

/-- The same, when the left one is polled first, or the right one. -/
def Span.BothInTime (leftFirst : Bool) (left right : Span) : Prop :=
  if leftFirst then left.InTime right else right.InTime left

/-- One round earlier nothing is different. -/
theorem Span.inTime_succ {f f' g g' : Span} (h_f : f.ends = f'.ends + 1)
    (h_g : g.ends = g'.ends + 1) (h_pos : 1 ≤ f'.ends) (h_f' : f'.drains = f.drains - 1)
    (h_g' : g'.drains = g.drains - 1) : f.InTime g ↔ f'.InTime g' := by
  have h_cancel (a : ℕ∞) : a + 1 - 1 = a :=
    (ENat.addLECancellable_of_ne_top ENat.one_ne_top).add_tsub_cancel_right
  have h_le : f'.ends + 1 ≤ g'.ends + 1 ↔ f'.ends ≤ g'.ends :=
    ENat.add_le_add_iff_right ENat.one_ne_top
  unfold InTime
  -- the one can be taken to the other side everywhere but below the case distinction
  rw [h_f, h_g, h_f', h_g', tsub_le_iff_right, min_add_add_right, tsub_le_iff_right, h_cancel]
  refine and_congr_right fun _ => ?_
  by_cases h : f'.ends ≤ g'.ends
  · rw [if_pos h, if_pos (h_le.mpr h), tsub_add_cancel_of_le h_pos]
  · rw [if_neg h, if_neg (mt h_le.mp h)]

/-- A future that needs so many polls, as long as its state is as it should be. -/
structure Spans {S α : Type} (poll : S → Except Fault (S × Poll α)) (Fits : S → Prop)
    (span : S → Span) : Prop where
  pos : ∀ s, 1 ≤ (span s).ends
  fits : ∀ s s', Fits s → poll s = .ok (s', .pending) → Fits s'
  pending : ∀ s s', Fits s → poll s = .ok (s', .pending) → (span s).ends = (span s').ends + 1
  ready : ∀ s s' a, Fits s → poll s = .ok (s', .ready a) → (span s).ends = 1
  drains : ∀ s x, Fits s → poll s = .ok x → (span x.1).drains = (span s).drains - 1

section Span

variable {F G α β : Type} {pollF : F → Except Fault (F × Poll α)}
  {pollG : G → Except Fault (G × Poll β)} {FitsF : F → Prop} {FitsG : G → Prop} {spanF : F → Span}
  {spanG : G → Span}

/-- The state after a round is the state before it with a poll less to go. -/
structure OneLess (FitsF : F → Prop) (spanF : F → Span) (f f' : F) : Prop where
  fits : FitsF f'
  ends : (spanF f).ends = (spanF f').ends + 1
  drains : (spanF f').drains = (spanF f).drains - 1

theorem Spans.oneLess (hF : Spans pollF FitsF spanF) {f f' : F} (h_f : FitsF f)
    (h_poll : pollF f = .ok (f', .pending)) : OneLess FitsF spanF f f' :=
  ⟨hF.fits f f' h_f h_poll, hF.pending f f' h_f h_poll, hF.drains f _ h_f h_poll⟩

/-- **One round**: both futures are pending, and each needs a poll less, or the pair has ended. -/
theorem pollBoth_cases (hF : Spans pollF FitsF spanF) (hG : Spans pollG FitsG spanG) {f f' : F}
    {g g' : G} {done : Bool} (h_f : FitsF f) (h_g : FitsG g)
    (h : pollBoth pollF pollG f g = .ok (f', g', done)) :
    (done = false ∧ OneLess FitsF spanF f f' ∧ OneLess FitsG spanG g g') ∨
      (done = true ∧ min (spanF f).ends (spanG g).ends = 1 ∧
        ((spanF f').drains = 0 ∧ (spanG g').drains = 0 ↔ (spanF f).InTime (spanG g))) := by
  obtain ⟨⟨f₁, answer⟩, h_poll, h⟩ := bind_eq_ok.mp h
  have h_drains := hF.drains f _ h_f h_poll
  cases answer with
  | pending =>
    obtain ⟨⟨g₁, answer'⟩, h_poll', h⟩ := bind_eq_ok.mp h
    have h_less := hF.oneLess h_f h_poll
    have h_drains' := hG.drains g _ h_g h_poll'
    cases answer' with
    | pending =>
      cases h
      exact Or.inl ⟨rfl, h_less, hG.oneLess h_g h_poll'⟩
    | ready b =>
      -- the second one is ready after the first one has been polled
      cases h
      have h_end := hG.ready g g' b h_g h_poll'
      have h_pos' := hF.pos f'
      -- the first one is pending, so it needs two polls at least
      have h_lt : ¬ (spanF f).ends ≤ 1 := by
        rw [h_less.ends]
        exact fun h_le => absurd (h_pos'.trans ((ENat.add_le_add_iff_right ENat.one_ne_top).mp
          (h_le.trans (zero_add 1).ge))) (by decide)
      refine Or.inr ⟨rfl, ?_, ?_⟩
      · rw [h_end]
        exact min_eq_right (le_of_not_ge h_lt)
      · unfold Span.InTime
        rw [h_end, if_neg h_lt, min_eq_right (le_of_not_ge h_lt), h_drains, h_drains',
          tsub_eq_zero_iff_le, tsub_eq_zero_iff_le]
  | ready a =>
    -- the first one is ready, and the second one is not polled
    cases h
    have h_end := hF.ready f f' a h_f h_poll
    refine Or.inr ⟨rfl, ?_, ?_⟩
    · rw [h_end]
      exact min_eq_left (hG.pos g)
    · unfold Span.InTime
      rw [h_end, if_pos (hG.pos g), min_eq_left (hG.pos g), h_drains, tsub_self,
        tsub_eq_zero_iff_le, nonpos_iff_eq_zero]

/-- **A round of two futures** that come to their ends in known polls: both have a poll less to go,
or one of them ends, and what is drained then tells whether both were in time. -/
theorem selectPoll_cases (hF : Spans pollF FitsF spanF) (hG : Spans pollG FitsG spanG) {f : F}
    {g : G} (h_f : FitsF f) (h_g : FitsG g) {leftFirst : Bool} {x : Selected F G}
    (h : selectPoll pollF pollG leftFirst f g = .ok x) :
    (x.done = false ∧ OneLess FitsF spanF f x.left ∧ OneLess FitsG spanG g x.right) ∨
      (x.done = true ∧ min (spanF f).ends (spanG g).ends = 1 ∧
        ((spanF x.left).drains = 0 ∧ (spanG x.right).drains = 0 ↔
          Span.BothInTime leftFirst (spanF f) (spanG g))) := by
  -- the draw says which future is polled first; the other one is polled only if that is pending
  rcases selectPoll_eq_ok h with ⟨rfl, h_both⟩ | ⟨rfl, h_both⟩
  · exact pollBoth_cases hF hG h_f h_g h_both
  · rcases pollBoth_cases hG hF h_g h_f h_both with ⟨h_more, h_g', h_f'⟩ | ⟨h_end, h_min, h_iff⟩
    · exact Or.inl ⟨h_more, h_f', h_g'⟩
    · exact Or.inr ⟨h_end, (min_comm _ _).trans h_min, and_comm.trans h_iff⟩

/-- A round in which both are pending changes nothing about who is in time. -/
theorem OneLess.bothInTime {f f' : F} {g g' : G} (hF : Spans pollF FitsF spanF)
    (hG : Spans pollG FitsG spanG) (h_f : OneLess FitsF spanF f f')
    (h_g : OneLess FitsG spanG g g') (leftFirst : Bool) :
    Span.BothInTime leftFirst (spanF f') (spanG g') ↔
      Span.BothInTime leftFirst (spanF f) (spanG g) := by
  cases leftFirst with
  | true => exact (Span.inTime_succ h_f.ends h_g.ends (hF.pos f') h_f.drains h_g.drains).symm
  | false => exact (Span.inTime_succ h_g.ends h_f.ends (hG.pos g') h_g.drains h_f.drains).symm

/-- **A run** that has ended, in the round `n`: both futures have done what they have to do if they
were in time, and only then. -/
theorem selectRun_drained_iff (hF : Spans pollF FitsF spanF) (hG : Spans pollG FitsG spanG)
    {draws : List Bool} {f : F} {g : G} (h_f : FitsF f) (h_g : FitsG g) {x : Selected F G}
    (h_run : selectRun pollF pollG draws f g = .ok x) (h_done : x.done = true) :
    ∃ (n : ℕ) (leftFirst : Bool), min (spanF f).ends (spanG g).ends = n + 1 ∧
      draws[n]? = some leftFirst ∧
      ((spanF x.left).drains = 0 ∧ (spanG x.right).drains = 0 ↔
        Span.BothInTime leftFirst (spanF f) (spanG g)) := by
  induction draws generalizing f g with
  | nil =>
    -- no draws are left, and the run has not ended
    cases h_run
    cases h_done
  | cons leftFirst draws ih =>
    obtain ⟨y, h_round, h_run⟩ := bind_eq_ok.mp h_run
    rcases selectPoll_cases hF hG h_f h_g h_round with
      ⟨h_more, h_f', h_g'⟩ | ⟨h_end, h_min, h_iff⟩
    · -- the run goes on with a poll less to go for both
      rw [if_neg (by rw [h_more]; exact Bool.false_ne_true)] at h_run
      obtain ⟨n, first, h_n, h_draw, h_rest⟩ := ih h_f'.fits h_g'.fits h_run
      refine ⟨n + 1, first, ?_, h_draw, h_rest.trans (h_f'.bothInTime hF hG h_g' first)⟩
      rw [h_f'.ends, h_g'.ends, min_add_add_right, h_n]
      rfl
    · -- this round is the last one
      rw [if_pos h_end] at h_run
      cases h_run
      exact ⟨0, leftFirst, h_min, rfl, h_iff⟩

end Span

end V2ray
