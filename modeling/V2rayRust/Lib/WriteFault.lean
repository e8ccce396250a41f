import V2rayRust.Lib.Poll

/-!
# Writes that fail

Where a schedule of writes fails while a buffer is being written, over as many polls as it takes
(`BreaksOff`), and what a call of `write_data` has to do with it (`writeBreaks`): a call that is
pending leaves the question to the next one, a call that is done has met no failure, and a call that
fails is where it happens.
-/

namespace V2ray

variable {polls owed n : ℕ} {e : WriteEvent} {ws ws' after : List WriteEvent}

/-- Within so many polls a write fails when `owed` bytes have still to be written; `after` is what
the schedule goes on with. -/
inductive BreaksOff : ℕ → ℕ → List WriteEvent → List WriteEvent → Prop
  | here {polls owed : ℕ} {e : WriteEvent} {ws : List WriteEvent} (pos : 0 < owed)
      (fails : ¬ e.Works) : BreaksOff (polls + 1) owed (e :: ws) ws
  | pending {polls owed : ℕ} {ws after : List WriteEvent} (rest : BreaksOff polls owed ws after) :
      BreaksOff (polls + 1) owed (.pending :: ws) after
  | accept {polls owed n : ℕ} {ws after : List WriteEvent} (pos : 0 < n) (lt : n < owed)
      (rest : BreaksOff polls (owed - n) ws after) : BreaksOff polls owed (.accept n :: ws) after

theorem not_breaksOff_nil : ¬ BreaksOff polls owed [] after := by
  rintro ⟨⟩

theorem BreaksOff.owed_pos (h : BreaksOff polls owed ws after) : 0 < owed := by
  induction h with
  | here pos _ => exact pos
  | pending _ ih => exact ih
  | accept _ lt _ _ => exact Nat.lt_of_le_of_lt (Nat.zero_le _) lt

theorem BreaksOff.polls_pos (h : BreaksOff polls owed ws after) : 0 < polls := by
  induction h with
  | here _ _ => exact Nat.succ_pos _
  | pending _ _ => exact Nat.succ_pos _
  | accept _ _ _ ih => exact ih

/-- A `Pending` costs a poll, and nothing more. -/
theorem breaksOff_pending_iff :
    BreaksOff (polls + 1) owed (.pending :: ws) after ↔ BreaksOff polls owed ws after := by
  constructor
  · intro h
    cases h with
    | here _ fails => exact absurd trivial fails
    | pending rest => exact rest
  · exact .pending

/-- A write that takes a part does not end the poll. -/
theorem breaksOff_accept_iff (h_pos : 0 < n) :
    BreaksOff polls owed (.accept n :: ws) after ↔
      n < owed ∧ BreaksOff polls (owed - n) ws after := by
  constructor
  · intro h
    cases h with
    | here _ fails => exact absurd h_pos fails
    | accept _ lt rest => exact ⟨lt, rest⟩
  · exact fun ⟨h_lt, h_rest⟩ => .accept h_pos h_lt h_rest

/-- With bytes to write, the first write that fails breaks off. -/
theorem breaksOff_fails_iff (h_owed : 0 < owed) (h_fails : ¬ e.Works) :
    BreaksOff (polls + 1) owed (e :: ws) after ↔ after = ws := by
  constructor
  · intro h
    cases h with
    | here _ _ => rfl
    | pending _ => exact absurd trivial h_fails
    | accept pos _ _ => exact absurd pos h_fails
  · rintro rfl
    exact .here h_owed h_fails

/-- How a call of `write_data` got on with the answers that its writes got, and what is left of the
question whether a write fails. -/
inductive WriteBreaks (buffer : List UInt8) (pos : ℕ) (ws : List WriteEvent) :
    List WriteEvent → Written → Prop
  | pending {answers ws' : List WriteEvent} {pos' : ℕ} {out : List UInt8}
      (works : ∀ a ∈ answers, a.Works) (lt : pos' < buffer.length)
      (out_eq : buffer.take pos ++ out = buffer.take pos')
      (breaks_iff : ∀ polls after, BreaksOff (polls + 1) (buffer.length - pos) ws after ↔
        BreaksOff polls (buffer.length - pos') ws' after) :
      WriteBreaks buffer pos ws answers ⟨.pending, pos', out, ws'⟩
  | done {answers ws' : List WriteEvent} {pos' : ℕ} {out : List UInt8}
      (works : ∀ a ∈ answers, a.Works) (out_eq : buffer.take pos ++ out = buffer)
      (whole : ∀ polls after, ¬ BreaksOff polls (buffer.length - pos) ws after) :
      WriteBreaks buffer pos ws answers ⟨.ready (.ok ()), pos', out, ws'⟩
  | failed {answers ws' : List WriteEvent} {message : String} {pos' : ℕ} {out : List UInt8}
      (fails : ∃ a ∈ answers, ¬ a.Works) (lt : pos' < buffer.length)
      (out_eq : buffer.take pos ++ out = buffer.take pos')
      (breaks_iff : ∀ polls after,
        BreaksOff (polls + 1) (buffer.length - pos) ws after ↔ after = ws') :
      WriteBreaks buffer pos ws answers ⟨.ready (.error message), pos', out, ws'⟩

variable {buffer taken : List UInt8} {pos : ℕ} {answers : List WriteEvent} {x : Written}

/-- Nothing is left to write. -/
theorem WriteBreaks.of_ge (h : ¬ pos < buffer.length) (ws : List WriteEvent) :
    WriteBreaks buffer pos ws [] ⟨.ready (.ok ()), pos, [], ws⟩ := by
  refine .done (fun _ h_a => by cases h_a) ?_ fun polls after h_breaks => ?_
  · rw [List.append_nil, List.take_of_length_le (Nat.le_of_not_lt h)]
  · exact h (Nat.lt_of_sub_pos h_breaks.owed_pos)

/-- A write that takes something, and the others. -/
theorem WriteBreaks.accept (h_pos : 0 < n) (h_taken : taken = (buffer.drop pos).take n)
    (h : WriteBreaks buffer (pos + taken.length) ws answers x) :
    WriteBreaks buffer pos (.accept n :: ws) (.accept n :: answers)
      { x with out := taken ++ x.out } := by
  have h_take : buffer.take pos ++ taken = buffer.take (pos + taken.length) := by
    rw [List.take_add, h_taken,
      ← List.prefix_iff_eq_take.mp (List.take_prefix n (buffer.drop pos))]
  have h_len : taken.length = min n (buffer.length - pos) := by
    rw [h_taken, List.length_take, List.length_drop]
  -- as long as something is missing, all that is accepted is taken
  have h_owed (h_lt : n < buffer.length - pos) :
      buffer.length - pos - n = buffer.length - (pos + taken.length) := by
    omega
  have h_works {as : List WriteEvent} (h_as : ∀ a ∈ as, a.Works) :
      ∀ a ∈ WriteEvent.accept n :: as, a.Works :=
    List.forall_mem_cons.mpr ⟨h_pos, h_as⟩
  have h_iff (polls : ℕ) (after : List WriteEvent) :
      BreaksOff polls (buffer.length - pos) (.accept n :: ws) after ↔
        BreaksOff polls (buffer.length - (pos + taken.length)) ws after := by
    rw [breaksOff_accept_iff h_pos]
    constructor
    · rintro ⟨h_lt, h_rest⟩
      rwa [h_owed h_lt] at h_rest
    · intro h_rest
      have h_lt : n < buffer.length - pos := by
        have := h_rest.owed_pos
        omega
      exact ⟨h_lt, by rwa [h_owed h_lt]⟩
  cases h with
  | pending works lt out_eq breaks_iff =>
    refine .pending (h_works works) lt ?_ fun polls after => (h_iff _ _).trans (breaks_iff _ _)
    rw [← List.append_assoc, h_take, out_eq]
  | done works out_eq whole =>
    refine .done (h_works works) ?_ fun polls after h_breaks => whole _ _ ((h_iff _ _).mp h_breaks)
    rw [← List.append_assoc, h_take, out_eq]
  | failed fails lt out_eq breaks_iff =>
    obtain ⟨a, h_a, h_fails⟩ := fails
    refine .failed ⟨a, List.mem_cons_of_mem _ h_a, h_fails⟩ lt ?_
      fun polls after => (h_iff _ _).trans (breaks_iff _ _)
    rw [← List.append_assoc, h_take, out_eq]

/-- A write that fails. -/
theorem WriteBreaks.fails (message : String) (h_lt : pos < buffer.length) (h_fails : ¬ e.Works)
    (ws : List WriteEvent) :
    WriteBreaks buffer pos (e :: ws) [e] ⟨.ready (.error message), pos, [], ws⟩ :=
  .failed ⟨e, List.mem_singleton.mpr rfl, h_fails⟩ h_lt (List.append_nil _)
    fun _ _ => breaksOff_fails_iff (Nat.sub_pos_of_lt h_lt) h_fails

/-- How the loop of writes ends, and what its answers were. -/
theorem writeBreaks (buffer : List UInt8) (pos : ℕ) (ws : List WriteEvent) :
    WriteBreaks buffer pos ws (writeAnswers buffer pos ws) (writeData buffer pos ws) := by
  -- on the schedule, one write after the other
  induction ws generalizing pos with
  | nil =>
    rw [writeAnswers, writeData]
    split
    · next h_lt =>
      refine .pending (fun a h_a => ?_) h_lt (List.append_nil _) fun polls after =>
        iff_of_false not_breaksOff_nil not_breaksOff_nil
      rw [List.mem_singleton.mp h_a]
      exact trivial
    · next h_ge => exact .of_ge h_ge []
  | cons e ws ih =>
    rw [writeAnswers.eq_def, writeData.eq_def]
    dsimp only
    split
    · next h_lt =>
      cases e with
      | pending =>
        refine .pending (fun a h_a => ?_) h_lt (List.append_nil _) fun polls after =>
          breaksOff_pending_iff
        rw [List.mem_singleton.mp h_a]
        exact trivial
      | err message => exact .fails message h_lt id ws
      | accept n =>
        dsimp only
        split
        · next h_nil =>
          -- nothing is taken of what is left only if nothing is accepted
          refine .fails _ h_lt (fun h_pos => ?_) ws
          have h_len := congrArg List.length h_nil
          rw [List.length_take, List.length_drop, List.length_nil] at h_len
          have h_n : 0 < n := h_pos
          omega
        · next h_ne =>
          have h_pos : 0 < n := by
            refine Nat.pos_of_ne_zero fun h_zero => h_ne ?_
            rw [h_zero, List.take_zero]
          exact .accept h_pos rfl (ih _)
    · next h_ge => exact .of_ge h_ge (e :: ws)

end V2ray
