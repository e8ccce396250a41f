import Mathlib.Data.List.Basic
import Mathlib.Data.List.Induction

/-!
# Names of servers

`is_valid_dns_id` of `config/deserialize.rs`, which checks the `sni` of a TLS outbound byte by byte,
and the grammar of the names that it accepts. What the loop has read is labels with their dots and a
part of a label (`Scanned`); the two flags are about the last label that has a byte.

The loop is a fold of its step (`loop_eq_foldlM`). A step keeps `Scanned`, and `Scanned` determines
both flags, so a run that ends has read the labels of a name (`isName_of_isValidDnsId`). The other
way round, a label of the grammar can be read from every state between two labels (`foldlM_label`),
so every name is accepted (`isValidDnsId_of_isName`).
-/

namespace V2ray

namespace DnsId

/-- `b'-'` -/
abbrev hyphen : UInt8 := 0x2D

/-- `b'.'` -/
abbrev dot : UInt8 := 0x2E

/-- `b'0'..=b'9'` -/
def isDigit (b : UInt8) : Bool := 0x30 ≤ b && b ≤ 0x39

/-- `b'a'..=b'z'`, `b'A'..=b'Z'` and `b'_'` -/
def isLetter (b : UInt8) : Bool := (0x61 ≤ b && b ≤ 0x7A) || (0x41 ≤ b && b ≤ 0x5A) || b = 0x5F

def maxLabelLength : ℕ := 63

/-- The variables of the loop. -/
structure Scan where
  labelLength : ℕ := 0
  labelIsAllNumeric : Bool := false
  labelEndsWithHyphen : Bool := false
  deriving DecidableEq

/-- `label_length += 1`, and the check that follows it -/
def grow (s : Scan) : Option Scan :=
  if maxLabelLength < s.labelLength + 1 then none
  else some { s with labelLength := s.labelLength + 1 }

/-- One byte; `none` is `return false`. -/
def step (s : Scan) (b : UInt8) : Option Scan :=
  if b = hyphen then
    if s.labelLength = 0 then none
    else grow { s with labelIsAllNumeric := false, labelEndsWithHyphen := true }
  else if isDigit b then
    let numeric := if s.labelLength = 0 then true else s.labelIsAllNumeric
    grow { s with labelIsAllNumeric := numeric, labelEndsWithHyphen := false }
  else if isLetter b then
    grow { s with labelIsAllNumeric := false, labelEndsWithHyphen := false }
  else if b = dot then
    if s.labelLength = 0 then none
    else if s.labelEndsWithHyphen then none
    else some { s with labelLength := 0 }
  else none

/-- The loop, which reads a byte before it looks for the end of the input. -/
def loop (s : Scan) : List UInt8 → Option Scan
  | [] => none
  | b :: input =>
    match step s b with
    | none => none
    | some s => if input.isEmpty then some s else loop s input

end DnsId

open DnsId in
def isValidDnsId (hostname : List UInt8) : Bool :=
  if 253 < hostname.length then false
  else
    match loop {} hostname with
    | none => false
    | some s =>
      if s.labelEndsWithHyphen then false
      else if s.labelIsAllNumeric then false
      else true

namespace DnsId

/-! ### The grammar -/

/-- A byte of `[A-Za-z0-9_-]`. -/
def isLabelByte (b : UInt8) : Bool := isLetter b || isDigit b || b = hyphen

structure IsLabel (l : List UInt8) : Prop where
  nonempty : 1 ≤ l.length
  short : l.length ≤ 63
  bytes : ∀ b ∈ l, isLabelByte b
  head : l.head? ≠ some hyphen
  last : l.getLast? ≠ some hyphen

/-- Labels with dots between them, and at most one dot after them. -/
structure IsName (s : List UInt8) : Prop where
  nonempty : s ≠ []
  short : s.length ≤ 253
  labels : ∃ ls last, (∀ l ∈ ls ++ [last], IsLabel l) ∧ ¬ (∀ b ∈ last, isDigit b) ∧
    (s = List.intercalate [dot] (ls ++ [last]) ∨
      s = List.intercalate [dot] (ls ++ [last]) ++ [dot])

/-- Labels, each with its dot. -/
def dotted (ls : List (List UInt8)) : List UInt8 := ls.flatMap (· ++ [dot])

/-- Labels with dots between them have a dot after each but the last. -/
theorem intercalate_concat (ls : List (List UInt8)) (last : List UInt8) :
    List.intercalate [dot] (ls ++ [last]) = dotted ls ++ last := by
  induction ls with
  | nil => simp [dotted, List.intercalate]
  | cons l ls ih =>
    obtain ⟨l', rest, h_rest⟩ : ∃ l' rest, ls ++ [last] = l' :: rest :=
      List.exists_cons_of_ne_nil (by simp)
    have h_cons : List.intercalate [dot] (l :: l' :: rest) =
        l ++ [dot] ++ List.intercalate [dot] (l' :: rest) := by
      simp [List.intercalate, List.intersperse]
    rw [List.cons_append, h_rest, h_cons, ← h_rest, ih]
    simp [dotted]

theorem dotted_concat (ls : List (List UInt8)) (l : List UInt8) :
    dotted (ls ++ [l]) = dotted ls ++ l ++ [dot] := by
  simp [dotted]

/-! ### What has been read -/

def allDigits (l : List UInt8) : Bool := l.all isDigit

theorem allDigits_eq_false {l : List UInt8} :
    allDigits l = false ↔ ¬ ∀ b ∈ l, isDigit b := by
  rw [← Bool.not_eq_true, allDigits, List.all_eq_true]

def endsWithHyphen (l : List UInt8) : Bool := l.getLast? = some hyphen

/-- The last label that has a byte. -/
def lastLabel (ls : List (List UInt8)) (cur : List UInt8) : Option (List UInt8) :=
  if cur = [] then ls.getLast? else some cur

/-- The variables after the labels `ls` with their dots and the part `cur` of a label. -/
structure Scanned (ls : List (List UInt8)) (cur : List UInt8) (s : Scan) : Prop where
  labels : ∀ l ∈ ls, IsLabel l
  bytes : ∀ b ∈ cur, isLabelByte b
  short : cur.length ≤ 63
  head : cur.head? ≠ some hyphen
  length : s.labelLength = cur.length
  numeric : s.labelIsAllNumeric = (lastLabel ls cur).any allDigits
  ends : s.labelEndsWithHyphen = (lastLabel ls cur).any endsWithHyphen

theorem scanned_nil : Scanned [] [] {} where
  labels _ h := by cases h
  bytes _ h := by cases h
  short := Nat.zero_le _
  head := by simp
  length := rfl
  numeric := rfl
  ends := rfl

@[simp] theorem lastLabel_concat (ls : List (List UInt8)) (cur : List UInt8) (b : UInt8) :
    lastLabel ls (cur ++ [b]) = some (cur ++ [b]) :=
  if_neg (by simp)

theorem allDigits_concat (cur : List UInt8) (b : UInt8) :
    allDigits (cur ++ [b]) = (allDigits cur && isDigit b) := by
  simp [allDigits]

theorem endsWithHyphen_concat (cur : List UInt8) (b : UInt8) :
    endsWithHyphen (cur ++ [b]) = decide (b = hyphen) := by
  simp [endsWithHyphen]

/-- What one byte of a label does to the variables. -/
theorem step_of_isLabelByte {s : Scan} {b : UInt8} (h : isLabelByte b) :
    step s b =
      if b = hyphen ∧ s.labelLength = 0 then none
      else if maxLabelLength < s.labelLength + 1 then none
      else some
        { labelLength := s.labelLength + 1
          labelIsAllNumeric := isDigit b && (s.labelLength = 0 || s.labelIsAllNumeric)
          labelEndsWithHyphen := b = hyphen } := by
  unfold step
  by_cases h_hyphen : b = hyphen
  · subst h_hyphen
    have h_digit : isDigit hyphen = false := rfl
    by_cases h_length : s.labelLength = 0 <;> simp [h_length, grow, h_digit]
  · by_cases h_digit : isDigit b
    · by_cases h_length : s.labelLength = 0 <;> simp [h_hyphen, h_digit, h_length, grow]
    · have h_letter : isLetter b = true := by simpa [isLabelByte, h_hyphen, h_digit] using h
      simp [h_hyphen, h_digit, h_letter, grow]

theorem step_dot (s : Scan) :
    step s dot =
      if s.labelLength = 0 ∨ s.labelEndsWithHyphen then none
      else some { s with labelLength := 0 } := by
  unfold step
  have h_digit : isDigit dot = false := rfl
  have h_letter : isLetter dot = false := rfl
  have h_hyphen : dot ≠ hyphen := by decide
  rw [if_neg h_hyphen, h_digit, h_letter]
  by_cases h_length : s.labelLength = 0 <;> simp [h_length]

/-- Any other byte ends the loop. -/
theorem step_other {s : Scan} {b : UInt8} (h_label : isLabelByte b = false) (h_dot : b ≠ dot) :
    step s b = none := by
  simp only [isLabelByte, Bool.or_eq_false_iff, decide_eq_false_iff_not] at h_label
  obtain ⟨⟨h_letter, h_digit⟩, h_hyphen⟩ := h_label
  simp [step, h_letter, h_digit, h_hyphen, h_dot]

variable {ls : List (List UInt8)} {cur : List UInt8} {s s' : Scan} {b : UInt8}

theorem Scanned.numeric_of_ne_nil (h : Scanned ls cur s) (h_cur : cur ≠ []) :
    s.labelIsAllNumeric = allDigits cur := by
  rw [h.numeric, lastLabel, if_neg h_cur]
  rfl

theorem Scanned.ends_of_ne_nil (h : Scanned ls cur s) (h_cur : cur ≠ []) :
    s.labelEndsWithHyphen = endsWithHyphen cur := by
  rw [h.ends, lastLabel, if_neg h_cur]
  rfl

/-- A byte that makes the label longer. -/
theorem Scanned.byte (h : Scanned ls cur s) (h_b : isLabelByte b) (h_short : cur.length < 63)
    (h_head : cur = [] → b ≠ hyphen) : ∃ s', step s b = some s' ∧ Scanned ls (cur ++ [b]) s' := by
  have h_first : ¬ (b = hyphen ∧ s.labelLength = 0) := by
    rintro ⟨h_hyphen, h_length⟩
    rw [h.length] at h_length
    exact h_head (List.length_eq_zero_iff.mp h_length) h_hyphen
  have h_room : ¬ maxLabelLength < s.labelLength + 1 := by
    rw [h.length]
    exact Nat.not_lt.mpr h_short
  refine ⟨_, by rw [step_of_isLabelByte h_b, if_neg h_first, if_neg h_room], ?_⟩
  refine ⟨h.labels, ?_, ?_, ?_, ?_, ?_, ?_⟩
  · intro b' h_mem
    rcases List.mem_append.mp h_mem with h_cur | h_last
    · exact h.bytes b' h_cur
    · rwa [List.mem_singleton.mp h_last]
  · rw [List.length_append]
    exact h_short
  · cases cur with
    | nil => simpa using h_head rfl
    | cons c cur => exact h.head
  · rw [List.length_append, ← h.length]
    rfl
  · rw [lastLabel_concat, Option.any_some, allDigits_concat, Bool.and_comm]
    -- on the first byte of a label the flag is still about the label before
    by_cases h_cur : cur = []
    · simp [h.length, h_cur, allDigits]
    · simp [h.length, h_cur, h.numeric_of_ne_nil h_cur]
  · rw [lastLabel_concat, Option.any_some, endsWithHyphen_concat]

/-- The dot after a label. -/
theorem Scanned.dot (h : Scanned ls cur s) (h_cur : cur ≠ [])
    (h_last : endsWithHyphen cur = false) :
    ∃ s', step s dot = some s' ∧ Scanned (ls ++ [cur]) [] s' := by
  have h_go : ¬ (s.labelLength = 0 ∨ s.labelEndsWithHyphen) := by
    rw [h.length, h.ends_of_ne_nil h_cur, h_last, List.length_eq_zero_iff]
    simpa using h_cur
  refine ⟨_, by rw [step_dot, if_neg h_go], ?_⟩
  have h_label : IsLabel cur :=
    ⟨List.length_pos_iff.mpr h_cur, h.short, h.bytes, h.head,
      by simpa [endsWithHyphen] using h_last⟩
  have h_this : lastLabel (ls ++ [cur]) [] = some cur := by
    rw [lastLabel, if_pos rfl, List.getLast?_concat]
  refine ⟨?_, fun _ h_mem => (by cases h_mem), Nat.zero_le _, by simp, rfl, ?_, ?_⟩
  · intro l h_mem
    rcases List.mem_append.mp h_mem with h_ls | h_cur
    · exact h.labels l h_ls
    · rwa [List.mem_singleton.mp h_cur]
  · rw [h_this]
    exact h.numeric_of_ne_nil h_cur
  · rw [h_this]
    exact h.ends_of_ne_nil h_cur

/-- A byte after which the loop goes on is one of these two. -/
theorem Scanned.of_step (h : Scanned ls cur s) (h_step : step s b = some s') :
    Scanned ls (cur ++ [b]) s' ∨ (b = DnsId.dot ∧ Scanned (ls ++ [cur]) [] s') := by
  by_cases h_b : isLabelByte b
  · -- a byte of a label: it is no hyphen at the start, and there is room
    rw [step_of_isLabelByte h_b] at h_step
    split at h_step
    · cases h_step
    · next h_first =>
      split at h_step
      · cases h_step
      · next h_room =>
        have h_short : cur.length < 63 := by
          rw [← h.length]
          exact Nat.not_lt.mp h_room
        have h_head : cur = [] → b ≠ hyphen := by
          rintro rfl h_hyphen
          exact h_first ⟨h_hyphen, h.length⟩
        obtain ⟨s'', h_s'', h_scanned⟩ := h.byte h_b h_short h_head
        rw [step_of_isLabelByte h_b, if_neg h_first, if_neg h_room, h_step] at h_s''
        cases h_s''
        exact .inl h_scanned
  · by_cases h_dot : b = DnsId.dot
    · -- a dot: the label before it is not empty, and does not end with a hyphen
      subst h_dot
      have h_go := h_step
      rw [step_dot] at h_go
      split at h_go
      · cases h_go
      · next h_ok =>
        obtain ⟨h_length, h_ends⟩ := not_or.mp h_ok
        have h_cur : cur ≠ [] := by
          rintro rfl
          exact h_length h.length
        rw [h.ends_of_ne_nil h_cur] at h_ends
        obtain ⟨s'', h_s'', h_scanned⟩ := h.dot h_cur ((Bool.not_eq_true _).mp h_ends)
        rw [h_step] at h_s''
        cases h_s''
        exact .inr ⟨rfl, h_scanned⟩
    · -- any other byte ends the loop
      rw [step_other ((Bool.not_eq_true _).mp h_b) h_dot] at h_step
      cases h_step

/-! ### Runs -/

/-- The loop is a fold of its step, but for the empty name. -/
theorem loop_eq_foldlM {input : List UInt8} (h : input ≠ []) (s : Scan) :
    loop s input = input.foldlM step s := by
  induction input generalizing s with
  | nil => exact absurd rfl h
  | cons b input ih =>
    rw [loop, List.foldlM_cons]
    cases step s b with
    | none => rfl
    | some s' =>
      cases input with
      | nil => rfl
      | cons b' input => exact ih (by simp) s'

/-- What a loop that has not returned has read. -/
theorem scanned_of_foldlM {w : List UInt8} (h : w.foldlM step {} = some s) :
    ∃ ls cur, w = dotted ls ++ cur ∧ Scanned ls cur s := by
  induction w using List.reverseRecOn generalizing s with
  | nil =>
    cases h
    exact ⟨[], [], rfl, scanned_nil⟩
  | append_singleton w b ih =>
    rw [List.foldlM_append] at h
    obtain ⟨m, h_m, h⟩ := Option.bind_eq_some_iff.mp h
    obtain ⟨m', h_step, h⟩ := Option.bind_eq_some_iff.mp h
    cases h
    obtain ⟨ls, cur, rfl, h_scanned⟩ := ih h_m
    rcases h_scanned.of_step h_step with h_longer | ⟨rfl, h_next⟩
    · exact ⟨ls, cur ++ [b], (List.append_assoc _ _ _), h_longer⟩
    · refine ⟨ls ++ [cur], [], ?_, h_next⟩
      rw [dotted_concat, List.append_nil]

theorem foldlM_concat {w : List UInt8} (h : w.foldlM step {} = some s)
    (h_step : step s b = some s') : (w ++ [b]).foldlM step {} = some s' := by
  rw [List.foldlM_append, h]
  show (step s b).bind some = some s'
  rw [h_step]
  rfl

/-- The part of a label is read from the first byte on. -/
theorem foldlM_label {w : List UInt8} (h_w : w.foldlM step {} = some s)
    (h : Scanned ls [] s) (h_bytes : ∀ b ∈ cur, isLabelByte b) (h_short : cur.length ≤ 63)
    (h_head : cur.head? ≠ some hyphen) :
    ∃ s', (w ++ cur).foldlM step {} = some s' ∧ Scanned ls cur s' := by
  induction cur using List.reverseRecOn with
  | nil =>
    rw [List.append_nil]
    exact ⟨s, h_w, h⟩
  | append_singleton cur b ih =>
    rw [List.length_append] at h_short
    have h_head_cur : cur.head? ≠ some hyphen := by
      cases cur with
      | nil => simp
      | cons c cur => exact h_head
    obtain ⟨m, h_m, h_scanned⟩ := ih (fun b' h_mem => h_bytes b' (List.mem_append_left _ h_mem))
      (Nat.le_of_succ_le h_short) h_head_cur
    obtain ⟨s', h_step, h_next⟩ := h_scanned.byte (h_bytes b (by simp)) h_short
      (by rintro rfl; simpa using h_head)
    exact ⟨s', by rw [← List.append_assoc]; exact foldlM_concat h_m h_step, h_next⟩

/-- Labels that end in a dot each bring the loop to the start of the next one. -/
theorem foldlM_dotted (h : ∀ l ∈ ls, IsLabel l) :
    ∃ s, (dotted ls).foldlM step {} = some s ∧ Scanned ls [] s := by
  induction ls using List.reverseRecOn with
  | nil => exact ⟨_, rfl, scanned_nil⟩
  | append_singleton ls l ih =>
    obtain ⟨s, h_s, h_scanned⟩ := ih fun l' h_mem => h l' (List.mem_append_left _ h_mem)
    have h_l := h l (by simp)
    obtain ⟨m, h_m, h_label⟩ := foldlM_label h_s h_scanned h_l.bytes h_l.short h_l.head
    obtain ⟨s', h_step, h_next⟩ := h_label.dot (List.ne_nil_of_length_pos h_l.nonempty)
      (by simpa [endsWithHyphen] using h_l.last)
    refine ⟨s', ?_, h_next⟩
    rw [dotted_concat]
    exact foldlM_concat h_m h_step

/-- What the checks after the loop are about. -/
theorem isValidDnsId_eq_true {hostname : List UInt8} :
    isValidDnsId hostname = true ↔ hostname ≠ [] ∧ hostname.length ≤ 253 ∧
      ∃ s, hostname.foldlM step {} = some s ∧ s.labelEndsWithHyphen = false ∧
        s.labelIsAllNumeric = false := by
  unfold isValidDnsId
  by_cases h_nil : hostname = []
  · subst h_nil
    simp [loop]
  · rw [loop_eq_foldlM h_nil]
    cases hostname.foldlM step {} with
    | none => simp
    | some s =>
      cases s.labelEndsWithHyphen <;> cases s.labelIsAllNumeric <;> simp [h_nil]

/-- What is accepted is a name: its labels are those that the loop has cut off. -/
theorem isName_of_isValidDnsId {s : List UInt8} (h_valid : isValidDnsId s = true) : IsName s := by
  obtain ⟨h_nil, h_short, m, h_m, h_ends, h_numeric⟩ := isValidDnsId_eq_true.mp h_valid
  -- the loop has gone through, and neither flag is set
  refine ⟨h_nil, h_short, ?_⟩
  obtain ⟨ls, cur, rfl, h⟩ := scanned_of_foldlM h_m
  rw [h.numeric] at h_numeric
  by_cases h_cur : cur = []
  · -- a trailing dot: the last label is the last one of those with a dot
    subst h_cur
    rcases List.eq_nil_or_concat' ls with rfl | ⟨init, last, rfl⟩
    · exact absurd rfl h_nil
    · refine ⟨init, last, h.labels, ?_, .inr ?_⟩
      · rw [lastLabel, if_pos rfl, List.getLast?_concat, Option.any_some] at h_numeric
        exact allDigits_eq_false.mp h_numeric
      · rw [intercalate_concat, List.append_nil, dotted_concat]
  · -- the label that the loop is in is the last one
    refine ⟨ls, cur, ?_, ?_, .inl (intercalate_concat ls cur).symm⟩
    · -- the labels with a dot have been checked, and the last one is what the flags are about
      intro l h_mem
      rcases List.mem_append.mp h_mem with h_ls | h_last
      · exact h.labels l h_ls
      · rw [List.mem_singleton.mp h_last]
        rw [h.ends_of_ne_nil h_cur] at h_ends
        exact ⟨List.length_pos_iff.mpr h_cur, h.short, h.bytes, h.head,
          by simpa [endsWithHyphen] using h_ends⟩
    · rw [lastLabel, if_neg h_cur, Option.any_some] at h_numeric
      exact allDigits_eq_false.mp h_numeric

/-- A name is accepted: the loop goes through each of its labels. -/
theorem isValidDnsId_of_isName {s : List UInt8} (h : IsName s) : isValidDnsId s = true := by
  obtain ⟨h_nil, h_short, ls, last, h_labels, h_digits, h_eq⟩ := h
  refine isValidDnsId_eq_true.mpr ⟨h_nil, h_short, ?_⟩
  have h_last := h_labels last (by simp)
  have h_not : allDigits last = false := allDigits_eq_false.mpr h_digits
  have h_hyphen : endsWithHyphen last = false := by
    simpa [endsWithHyphen] using h_last.last
  have h_cur : last ≠ [] := List.ne_nil_of_length_pos h_last.nonempty
  -- no trailing dot: all labels but the last have one
  rcases h_eq with rfl | rfl
  · rw [intercalate_concat]
    obtain ⟨m, h_m, h⟩ := foldlM_dotted fun l h_mem => h_labels l (List.mem_append_left _ h_mem)
    obtain ⟨s', h_s', h'⟩ := foldlM_label h_m h h_last.bytes h_last.short h_last.head
    refine ⟨s', h_s', ?_, ?_⟩
    · rw [h'.ends_of_ne_nil h_cur, h_hyphen]
    · rw [h'.numeric_of_ne_nil h_cur, h_not]
  · -- with a trailing dot, the flags are still those of the last label
    rw [intercalate_concat, ← dotted_concat]
    obtain ⟨s', h_s', h'⟩ := foldlM_dotted h_labels
    have h_this : lastLabel (ls ++ [last]) [] = some last := by
      rw [lastLabel, if_pos rfl, List.getLast?_concat]
    refine ⟨s', h_s', ?_, ?_⟩
    · rw [h'.ends, h_this, Option.any_some, h_hyphen]
    · rw [h'.numeric, h_this, Option.any_some, h_not]

/-- **Server names**: the loop accepts the names of the grammar and no others. -/
theorem isValidDnsId_iff_isName (s : List UInt8) : isValidDnsId s = true ↔ IsName s :=
  ⟨isName_of_isValidDnsId, isValidDnsId_of_isName⟩

end DnsId

end V2ray
