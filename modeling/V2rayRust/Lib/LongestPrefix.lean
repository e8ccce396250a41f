import Mathlib.Data.List.Basic
import Mathlib.Order.MinMax
import Mathlib.Data.Nat.Init
import Mathlib.Tactic.Common
import Mathlib.Order.Nat

/-!
# Longest-prefix match

A rule applies to every word its path is a prefix of. Among the rules that apply, the ones
with the longest path win, and the last of them decides (`longestMatch`). A table indexed by
paths computes this by walking down the word and keeping the last entry it meets: that is
`latest`, and `longestMatch_eq_latest` is the equation between the two.
-/

namespace V2ray

variable {α β γ ρ : Type}

/-! ### The last value of a finite sequence of options -/

/-- The value at the greatest index below `n` that has one. -/
def latest (f : ℕ → Option β) : ℕ → Option β
  | 0 => none
  | n + 1 => (f n).or (latest f n)

theorem latest_eq_none {f : ℕ → Option β} {n : ℕ} (h : ∀ i < n, f i = none) :
    latest f n = none := by
  induction n with
  | zero => rfl
  | succ n ih =>
    unfold latest
    rw [h n (Nat.lt_succ_self n), ih fun i hi => h i (hi.trans (Nat.lt_succ_self n))]
    rfl

/-- The latest value is one of the sequence. -/
theorem exists_of_latest {f : ℕ → Option β} {n : ℕ} {b : β} (h : latest f n = some b) :
    ∃ i, f i = some b := by
  induction n with
  | zero => cases h
  | succ n ih =>
    unfold latest at h
    rcases Option.or_eq_some_iff.mp h with h | ⟨_, h⟩
    · exact ⟨n, h⟩
    · exact ih h

/-- Nothing after `m` has a value, so the walk may stop there. -/
theorem latest_of_none_above {f : ℕ → Option β} {m n : ℕ} (hmn : m ≤ n)
    (h : ∀ i, m ≤ i → i < n → f i = none) : latest f n = latest f m := by
  induction n, hmn using Nat.le_induction with
  | base => rfl
  | succ n hmn ih =>
    unfold latest
    rw [h n hmn (Nat.lt_succ_self n), Option.none_or,
      ih fun i hi hin => h i hi (hin.trans (Nat.lt_succ_self n))]
    cases m <;> rfl

theorem latest_map (f : ℕ → Option β) (g : β → γ) (n : ℕ) :
    latest (fun i => (f i).map g) n = (latest f n).map g := by
  induction n with
  | zero => rfl
  | succ n ih =>
    unfold latest
    rw [ih]
    cases f n <;> rfl

/-! ### Rules -/

variable [DecidableEq α] (path : ρ → List α)

/-- The rules that apply to `ks`. -/
def agreeing (rs : List ρ) (ks : List α) : List ρ :=
  rs.filter fun r => (path r).isPrefixOf ks

/-- The length of the longest path in `rs`. -/
def longest (rs : List ρ) : ℕ :=
  (rs.map fun r => (path r).length).foldr max 0

/-- **Longest-prefix match**: the last rule among those of greatest length among the rules
that apply. -/
def longestMatch (rs : List ρ) (ks : List α) : Option ρ :=
  ((agreeing path rs ks).filter fun r =>
    (path r).length = longest path (agreeing path rs ks)).getLast?

/-- The last rule whose path is exactly `q`. -/
def lastAt (rs : List ρ) (q : List α) : Option ρ :=
  (rs.filter fun r => path r = q).getLast?

@[simp] theorem lastAt_nil (q : List α) : lastAt path [] q = none := rfl

/-- The last rule hides those before it with the same path, and no others. -/
theorem lastAt_concat (rs : List ρ) (r : ρ) (q : List α) :
    lastAt path (rs ++ [r]) q = if path r = q then some r else lastAt path rs q := by
  unfold lastAt
  rw [List.filter_append]
  by_cases h : path r = q
  · rw [List.filter_cons_of_pos (by simpa using h), if_pos h, List.filter_nil,
      List.getLast?_append]
    rfl
  · rw [List.filter_cons_of_neg (by simpa using h), if_neg h, List.filter_nil, List.append_nil]

theorem lastAt_eq_none {rs : List ρ} {q : List α} (h : ∀ r ∈ rs, path r ≠ q) :
    lastAt path rs q = none := by
  unfold lastAt
  rw [List.getLast?_eq_none_iff, List.filter_eq_nil_iff]
  intro r hr
  simpa using h r hr

omit [DecidableEq α] in
theorem length_le_longest {rs : List ρ} {r : ρ} (h : r ∈ rs) :
    (path r).length ≤ longest path rs := by
  unfold longest
  induction rs with
  | nil => cases h
  | cons a rs ih =>
    rw [List.map_cons, List.foldr_cons]
    rcases List.mem_cons.mp h with rfl | h
    · exact le_max_left _ _
    · exact (ih h).trans (le_max_right _ _)

omit [DecidableEq α] in
/-- The greatest length is that of a rule. -/
theorem exists_length_eq_longest {rs : List ρ} (h : rs ≠ []) :
    ∃ r ∈ rs, (path r).length = longest path rs := by
  induction rs with
  | nil => exact absurd rfl h
  | cons a rs ih =>
    unfold longest
    rw [List.map_cons, List.foldr_cons]
    by_cases ha : longest path rs ≤ (path a).length
    · exact ⟨a, List.mem_cons_self, (max_eq_left ha).symm⟩
    · have hne : rs ≠ [] := by
        rintro rfl
        exact ha (Nat.zero_le _)
      obtain ⟨r, hr, hlen⟩ := ih hne
      refine ⟨r, List.mem_cons_of_mem a hr, ?_⟩
      rw [hlen]
      exact (max_eq_right (le_of_not_ge ha)).symm

/-- A path that applies to `ks` is the initial segment of `ks` of its own length. -/
theorem path_eq_take {r : ρ} {ks : List α} {n : ℕ} (hn : n ≤ ks.length) :
    path r = ks.take n ↔ (path r).isPrefixOf ks = true ∧ (path r).length = n := by
  rw [List.isPrefixOf_iff_prefix, List.prefix_iff_eq_take]
  constructor
  · intro h
    have hlen : (path r).length = n := by rw [h, List.length_take, min_eq_left hn]
    exact ⟨by rw [hlen]; exact h, hlen⟩
  · rintro ⟨h, hlen⟩
    rw [hlen] at h
    exact h

/-- **The walk computes the match.** Going down `ks` and keeping the last entry met gives
the longest-prefix match. -/
theorem longestMatch_eq_latest (rs : List ρ) (ks : List α) :
    longestMatch path rs ks = latest (fun i => lastAt path rs (ks.take i)) (ks.length + 1) := by
  by_cases hms : agreeing path rs ks = []
  · -- no rule applies, and no entry is met
    have h_none : ∀ i < ks.length + 1, lastAt path rs (ks.take i) = none := by
      intro i hi
      refine lastAt_eq_none path fun r hr heq => ?_
      have h_pre := ((path_eq_take path (Nat.lt_succ_iff.mp hi)).mp heq).1
      have h_mem : r ∈ agreeing path rs ks := List.mem_filter.mpr ⟨hr, h_pre⟩
      rw [hms] at h_mem
      cases h_mem
    rw [latest_eq_none h_none]
    unfold longestMatch
    rw [hms]
    rfl
  · -- the entry at the greatest length is the match, and there is none below it
    obtain ⟨r₀, hr₀, hlen₀⟩ := exists_length_eq_longest path hms
    set n := longest path (agreeing path rs ks) with hn
    have h_pre₀ := (List.mem_filter.mp hr₀).2
    have hn_le : n ≤ ks.length := by
      rw [← hlen₀]
      exact (List.isPrefixOf_iff_prefix.mp h_pre₀).length_le
    have h_above : ∀ i, n + 1 ≤ i → i < ks.length + 1 →
        lastAt path rs (ks.take i) = none := by
      intro i hi hik
      refine lastAt_eq_none path fun r hr heq => ?_
      obtain ⟨h_pre, hlen⟩ := (path_eq_take path (Nat.lt_succ_iff.mp hik)).mp heq
      have h_mem : r ∈ agreeing path rs ks := List.mem_filter.mpr ⟨hr, h_pre⟩
      have h_le := length_le_longest path h_mem
      omega
    -- the longest rules that apply are those that end where the entry is
    have h_filter : (agreeing path rs ks).filter (fun r => (path r).length = n)
        = rs.filter (fun r => path r = ks.take n) := by
      unfold agreeing
      rw [List.filter_filter]
      refine List.filter_congr fun r _ => ?_
      rw [Bool.eq_iff_iff, decide_eq_true_iff, path_eq_take path hn_le, Bool.and_eq_true,
        decide_eq_true_iff, and_comm]
    have h_match : longestMatch path rs ks = lastAt path rs (ks.take n) := by
      unfold longestMatch lastAt
      rw [← hn, h_filter]
    have h_some : (lastAt path rs (ks.take n)).isSome := by
      unfold lastAt
      rw [List.getLast?_isSome, ← h_filter]
      exact List.ne_nil_of_mem (List.mem_filter.mpr ⟨hr₀, by simpa using hlen₀⟩)
    rw [latest_of_none_above (Nat.succ_le_succ hn_le) h_above, h_match]
    unfold latest
    obtain ⟨r, hr⟩ := Option.isSome_iff_exists.mp h_some
    rw [hr]
    rfl

end V2ray
