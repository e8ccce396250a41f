import Mathlib.Data.List.Basic
import Mathlib.Data.List.Induction
import Mathlib.Data.List.Nodup
import Mathlib.Tactic.Common

/-!
# Grouping by key

A log of keyed entries, collected by key: the keys stand in the order of their first entry,
and each has its entries in the order of the log. `grouped_concat_of_notMem` and
`grouped_concat_of_getElem?` say what one more entry does, which is what a table that is
filled entry by entry does.
-/

namespace V2ray

variable {κ β γ : Type} [DecidableEq κ]

/-- The keys of a log, in the order of their first entries. -/
def keysOf (es : List (κ × β)) : List κ := (es.map Prod.fst).eraseDups

/-- The entries under `k`. -/
def entriesAt (es : List (κ × β)) (k : κ) : List β :=
  (es.filter fun e => e.1 = k).map Prod.snd

/-- The log, collected by key. -/
def grouped (es : List (κ × β)) : List (κ × List β) :=
  (keysOf es).map fun k => (k, entriesAt es k)

theorem mem_keysOf {es : List (κ × β)} {k : κ} : k ∈ keysOf es ↔ ∃ b, (k, b) ∈ es := by
  unfold keysOf
  rw [List.mem_eraseDups, List.mem_map]
  constructor
  · rintro ⟨⟨_, b⟩, h, rfl⟩
    exact ⟨b, h⟩
  · rintro ⟨b, h⟩
    exact ⟨(k, b), h, rfl⟩

/-- An entry of a key that is there adds no key. -/
theorem keysOf_concat_of_mem {es : List (κ × β)} {k : κ} (h : k ∈ keysOf es) (b : β) :
    keysOf (es ++ [(k, b)]) = keysOf es := by
  unfold keysOf at h ⊢
  rw [List.map_append, List.eraseDups_append]
  have h_mem : k ∈ es.map Prod.fst := List.mem_eraseDups.mp h
  have h_gone : ([(k, b)].map Prod.fst).removeAll (es.map Prod.fst) = [] := by
    simp [List.removeAll, h_mem]
  rw [h_gone, List.eraseDups_nil, List.append_nil]

theorem keysOf_concat_of_notMem {es : List (κ × β)} {k : κ} (h : k ∉ keysOf es) (b : β) :
    keysOf (es ++ [(k, b)]) = keysOf es ++ [k] := by
  unfold keysOf at h ⊢
  rw [List.map_append, List.eraseDups_append]
  have h_mem : k ∉ es.map Prod.fst := fun hk => h (List.mem_eraseDups.mpr hk)
  have h_stays : ([(k, b)].map Prod.fst).removeAll (es.map Prod.fst) = [k] := by
    simp [List.removeAll, h_mem]
  rw [h_stays]
  rfl

/-- Each key is there once. -/
theorem nodup_keysOf (es : List (κ × β)) : (keysOf es).Nodup := by
  induction es using List.reverseRecOn with
  | nil => exact List.nodup_nil
  | append_singleton es e ih =>
    obtain ⟨k, b⟩ := e
    by_cases h : k ∈ keysOf es
    · rw [keysOf_concat_of_mem h]
      exact ih
    · rw [keysOf_concat_of_notMem h, List.nodup_append]
      refine ⟨ih, List.nodup_singleton k, ?_⟩
      rintro a ha b hb rfl
      exact h (List.mem_singleton.mp hb ▸ ha)

theorem entriesAt_append (es es' : List (κ × β)) (k : κ) :
    entriesAt (es ++ es') k = entriesAt es k ++ entriesAt es' k := by
  unfold entriesAt
  rw [List.filter_append, List.map_append]

theorem entriesAt_concat_self (es : List (κ × β)) (k : κ) (b : β) :
    entriesAt (es ++ [(k, b)]) k = entriesAt es k ++ [b] := by
  unfold entriesAt
  simp

theorem entriesAt_concat_of_ne (es : List (κ × β)) {k k' : κ} (h : k' ≠ k) (b : β) :
    entriesAt (es ++ [(k, b)]) k' = entriesAt es k' := by
  unfold entriesAt
  simp [Ne.symm h]

theorem entriesAt_eq_nil {es : List (κ × β)} {k : κ} (h : k ∉ keysOf es) :
    entriesAt es k = [] := by
  unfold entriesAt
  rw [List.map_eq_nil_iff, List.filter_eq_nil_iff]
  rintro ⟨k', b⟩ h_mem h_eq
  obtain rfl : k' = k := of_decide_eq_true h_eq
  exact h (mem_keysOf.mpr ⟨b, h_mem⟩)

/-- A key has an entry. -/
theorem entriesAt_ne_nil {es : List (κ × β)} {k : κ} (h : k ∈ keysOf es) :
    entriesAt es k ≠ [] := by
  obtain ⟨b, h_mem⟩ := mem_keysOf.mp h
  intro h_nil
  have h_in : b ∈ entriesAt es k :=
    List.mem_map.mpr ⟨(k, b), List.mem_filter.mpr ⟨h_mem, decide_eq_true rfl⟩, rfl⟩
  rw [h_nil] at h_in
  cases h_in

@[simp] theorem grouped_nil : grouped ([] : List (κ × β)) = [] := rfl

/-- The first entry of a key opens a group at the end. -/
theorem grouped_concat_of_notMem {es : List (κ × β)} {k : κ} (h : k ∉ keysOf es) (b : β) :
    grouped (es ++ [(k, b)]) = grouped es ++ [(k, [b])] := by
  unfold grouped
  rw [keysOf_concat_of_notMem h, List.map_append, List.map_singleton, entriesAt_concat_self,
    entriesAt_eq_nil h, List.nil_append]
  refine congrArg (· ++ [(k, [b])]) (List.map_congr_left fun k' hk' => ?_)
  have h_ne : k' ≠ k := fun h_eq => h (h_eq ▸ hk')
  rw [entriesAt_concat_of_ne es h_ne]

/-- A further entry of a key goes to the end of its group. -/
theorem grouped_concat_of_getElem? {es : List (κ × β)} {k : κ} {i : ℕ}
    (h : (keysOf es)[i]? = some k) (b : β) :
    grouped (es ++ [(k, b)]) = (grouped es).modify i fun g => (g.1, g.2 ++ [b]) := by
  unfold grouped
  rw [keysOf_concat_of_mem (List.mem_of_getElem? h)]
  apply List.ext_getElem?
  intro j
  rw [List.getElem?_modify, List.getElem?_map, List.getElem?_map]
  cases h_j : (keysOf es)[j]? with
  | none => rfl
  | some k' =>
    by_cases h_ij : i = j
    · -- the group of `k` itself
      subst h_ij
      obtain rfl : k = k' := Option.some.inj (h.symm.trans h_j)
      simp [entriesAt_concat_self]
    · have h_ne : k' ≠ k := by
        rintro rfl
        have h_lt := (List.getElem?_eq_some_iff.mp h).1
        exact h_ij ((List.getElem?_inj h_lt (nodup_keysOf es)).mp (h.trans h_j.symm))
      simp [h_ij, entriesAt_concat_of_ne es h_ne]

theorem map_fst_grouped (es : List (κ × β)) : (grouped es).map Prod.fst = keysOf es := by
  unfold grouped
  rw [List.map_map]
  exact List.map_id _

/-- The first group with a property, by its key. -/
theorem find?_grouped (es : List (κ × β)) (val : List β → γ) {q : κ × γ → Bool} {Q : κ → Prop}
    [DecidablePred Q] (h : ∀ k, q (k, val (entriesAt es k)) = decide (Q k)) :
    (((grouped es).map fun g => (g.1, val g.2)).find? q).map Prod.fst =
      (keysOf es).find? (Q ·) := by
  unfold grouped
  rw [List.map_map, List.find?_map, Option.map_map]
  have h_q : (q ∘ (fun g : κ × List β => (g.1, val g.2)) ∘ fun k => (k, entriesAt es k)) =
      fun k => decide (Q k) := funext h
  rw [h_q]
  exact Option.map_id'

theorem getElem?_grouped (es : List (κ × β)) (i : ℕ) :
    (grouped es)[i]? = (keysOf es)[i]?.map fun k => (k, entriesAt es k) :=
  List.getElem?_map

end V2ray
