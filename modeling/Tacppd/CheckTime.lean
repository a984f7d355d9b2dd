/-
# Reading a time entry

`utl::check_time` copies the five fields of an entry to arrays of 100 bytes, with a loop for
each field and a loop for the blanks behind it.  Only the last loop looks for the end of the
entry.  So an entry with fewer than four blanks behind a field is read beyond its NUL, and a
field that has no bytes is handed to `cron_parse` as it lies on the stack.
-/
import Mathlib.Logic.Function.Iterate
import Tacppd.Cron

namespace Tacppd

/-- The fields of `struct tm` that are looked at. -/
structure CronTm where
  min : ℤ
  hour : ℤ
  mday : ℤ
  mon : ℤ
  wday : ℤ
  deriving DecidableEq, Repr

/-- The value that a field of the entry is compared with. -/
def CronTm.value (tm : CronTm) : ℕ → ℤ
  | 0 => tm.min
  | 1 => tm.hour
  | 2 => tm.mday
  | 3 => tm.mon + 1
  | _ => tm.wday

/-- One of the five loops that copy a field, from byte `j` of its array on: what it copies, and
the entry from there on.  Only the loop for the weekdays stops at the NUL.  `none` when it
reads behind the entry, or when the NUL behind the byte it copies does not fit the array. -/
def copyTimeField (last : Bool) (j : ℕ) : Bytes → Option (Bytes × Bytes)
  | [] => none
  | c :: rest =>
    if c = 32 ∨ (last = true ∧ c = 0) ∨ 100 ≤ j then some ([], c :: rest)
    else if 100 ≤ j + 1 then none
    else (copyTimeField last (j + 1) rest).map fun x => (c :: x.1, x.2)

/-- `while(entry[i] == ' ') i++`. -/
def skipSpaces (s : Bytes) : Bytes := s.dropWhile (· = 32)

/-- The calls of `cron_parse` in the condition at the end: the first one that does not return
true is the last one.  An array without a copied byte is not initialised, and `none` says that
it is used. -/
def cronAll [LongWidth] (rounds : ℕ) : List (Bytes × ℤ) → Option CronResult
  | [] => some (.ends true)
  | (field, value) :: rest =>
    if field = [] then none
    else
      match cronParse value rounds field with
      | .ends true => cronAll rounds rest
      | r => some r

/-- `utl::check_time(entry)` at the time `tm`, with a number of rounds for each call of
`cron_parse`. -/
def checkTime [LongWidth] (tm : CronTm) (rounds : ℕ) (entry : Bytes) : Option CronResult :=
  let entry := cstr entry
  if entry.length < 3 then some (.ends true)
  else do
    let (cMin, rest) ← copyTimeField false 0 (entry ++ [0])
    let (cHour, rest) ← copyTimeField false 0 (skipSpaces rest)
    let (cDay, rest) ← copyTimeField false 0 (skipSpaces rest)
    let (cMonth, rest) ← copyTimeField false 0 (skipSpaces rest)
    let (cWeekday, _) ← copyTimeField true 0 (skipSpaces rest)
    cronAll rounds [(cMin, tm.min), (cHour, tm.hour), (cDay, tm.mday), (cMonth, tm.mon + 1),
      (cWeekday, tm.wday)]

/-! ## Fields -/

/-- The field at the start of a text. -/
def timeWord (s : Bytes) : Bytes := s.takeWhile (· ≠ 32)

/-- What stands behind it and its blanks. -/
def timeRest (s : Bytes) : Bytes := skipSpaces (s.dropWhile (· ≠ 32))

/-- Field number `k` of an entry. -/
def timeField (k : ℕ) (s : Bytes) : Bytes := timeWord (timeRest^[k] s)

/-- The field at the start fits its array, and there is a blank behind it. -/
def Separated (s : Bytes) : Prop := 32 ∈ s ∧ (timeWord s).length < 100

/-- The entry starts with a field, four fields have blanks behind them, and none is too long
for its array.  The fifth field may be missing where one of the others does not hold. -/
structure TimeEntryFits [LongWidth] (tm : CronTm) (s : Bytes) : Prop where
  first : s.head? ≠ some 32
  separated : ∀ k < 4, Separated (timeRest^[k] s)
  last : (timeField 4 s).length < 100
  weekday : timeRest^[4] s = [] → ∃ k < 4, ¬ CronReturns (tm.value k) (timeField k s) true

variable {s : Bytes} {tm : CronTm} {rounds : ℕ}

theorem timeRest_suffix (s : Bytes) : timeRest s <:+ s :=
  (List.dropWhile_suffix _).trans (List.dropWhile_suffix _)

theorem timeRest_iterate_suffix (k : ℕ) (s : Bytes) : timeRest^[k] s <:+ s := by
  induction k with
  | zero => exact List.suffix_refl s
  | succ k ih =>
    rw [Function.iterate_succ_apply']
    exact (timeRest_suffix _).trans ih

/-- **One of the first four loops**: it needs a blank behind the field. -/
theorem copyTimeField_false {j : ℕ} (hj : j < 100) (h0 : 0 ∉ s) :
    copyTimeField false j (s ++ [0]) =
      if 32 ∈ s ∧ j + (timeWord s).length < 100 then
        some (timeWord s, s.dropWhile (· ≠ 32) ++ [0])
      else none := by
  induction s generalizing j with
  | nil =>
    rw [if_neg (by simp), List.nil_append, copyTimeField, if_neg (by simp; omega)]
    split
    · rfl
    · rfl
  | cons c s ih =>
    rw [List.cons_append, copyTimeField]
    by_cases hc : c = 32
    · have hword : timeWord (c :: s) = [] := by simp [timeWord, hc]
      have hdrop : (c :: s).dropWhile (· ≠ 32) = c :: s := by simp [hc]
      rw [if_pos (.inl hc), hword, hdrop, if_pos ⟨by simp [hc], by simpa using hj⟩,
        List.cons_append]
    · have hword : timeWord (c :: s) = c :: timeWord s := by simp [timeWord, hc]
      have hdrop : (c :: s).dropWhile (· ≠ 32) = s.dropWhile (· ≠ 32) := by simp [hc]
      have hmem : 32 ∈ c :: s ↔ 32 ∈ s := by simp [Ne.symm hc]
      rw [if_neg (by simp [hc]; omega), hword, hdrop, List.length_cons]
      simp only [hmem]
      by_cases hlong : 100 ≤ j + 1
      · rw [if_pos hlong, if_neg (by omega)]
      · rw [if_neg hlong, ih (by omega) (fun h => h0 (List.mem_cons_of_mem c h))]
        by_cases hfit : 32 ∈ s ∧ j + 1 + (timeWord s).length < 100
        · rw [if_pos hfit, if_pos ⟨hfit.1, by omega⟩, Option.map_some]
        · rw [if_neg hfit, if_neg (fun h => hfit ⟨h.1, by omega⟩), Option.map_none]

/-- **The last loop**: it stops at the end of the entry. -/
theorem copyTimeField_true {j : ℕ} (hj : j < 100) (h0 : 0 ∉ s) :
    copyTimeField true j (s ++ [0]) =
      if j + (timeWord s).length < 100 then
        some (timeWord s, s.dropWhile (· ≠ 32) ++ [0])
      else none := by
  induction s generalizing j with
  | nil =>
    rw [if_pos (by simpa [timeWord] using hj), List.nil_append, copyTimeField, if_pos (by simp)]
    rfl
  | cons c s ih =>
    rw [List.cons_append, copyTimeField]
    by_cases hc : c = 32
    · have hword : timeWord (c :: s) = [] := by simp [timeWord, hc]
      have hdrop : (c :: s).dropWhile (· ≠ 32) = c :: s := by simp [hc]
      rw [if_pos (.inl hc), hword, hdrop, if_pos (by simpa using hj), List.cons_append]
    · have hword : timeWord (c :: s) = c :: timeWord s := by simp [timeWord, hc]
      have hdrop : (c :: s).dropWhile (· ≠ 32) = s.dropWhile (· ≠ 32) := by simp [hc]
      have hc0 : c ≠ 0 := fun h => h0 (h ▸ List.mem_cons_self ..)
      rw [if_neg (by simp [hc, hc0]; omega), hword, hdrop, List.length_cons]
      by_cases hlong : 100 ≤ j + 1
      · rw [if_pos hlong, if_neg (by omega)]
      · rw [if_neg hlong, ih (by omega) (fun h => h0 (List.mem_cons_of_mem c h))]
        by_cases hfit : j + 1 + (timeWord s).length < 100
        · rw [if_pos hfit, if_pos (by omega), Option.map_some]
        · rw [if_neg hfit, if_neg (by omega), Option.map_none]

theorem skipSpaces_append (s : Bytes) :
    skipSpaces (s.dropWhile (· ≠ 32) ++ [0]) = timeRest s ++ [0] := by
  unfold timeRest skipSpaces
  generalize s.dropWhile (· ≠ 32) = t
  induction t with
  | nil => rfl
  | cons c t ih =>
    by_cases hc : c = 32
    · rw [List.cons_append, List.dropWhile_cons_of_pos (by simpa using hc), ih,
        List.dropWhile_cons_of_pos (by simpa using hc)]
    · rw [List.cons_append, List.dropWhile_cons_of_neg (by simpa using hc),
        List.dropWhile_cons_of_neg (by simpa using hc), List.cons_append]

/-- One of the first four fields, and the loop over the blanks behind it. -/
theorem copyTimeField_bind {α : Type} (h0 : 0 ∉ s) (f : Bytes × Bytes → Option α) :
    (Separated s → ((copyTimeField false 0 (s ++ [0])).bind f =
      f (timeWord s, s.dropWhile (· ≠ 32) ++ [0]))) ∧
    (¬ Separated s → (copyTimeField false 0 (s ++ [0])).bind f = none) := by
  have hcopy := copyTimeField_false (j := 0) (by decide) h0
  simp only [Nat.zero_add] at hcopy
  constructor
  · intro hs
    rw [hcopy, if_pos ⟨hs.1, hs.2⟩, Option.bind_some]
  · intro hs
    rw [hcopy, if_neg (fun h => hs ⟨h.1, h.2⟩), Option.bind_none]

/-- The five fields with the values they are compared with. -/
def timeFields (tm : CronTm) (s : Bytes) : List (Bytes × ℤ) :=
  (List.range 5).map fun k => (timeField k s, tm.value k)

/-- **What `check_time` makes of an entry that is not too short.** -/
theorem checkTime_eq [LongWidth] {entry : Bytes} (hlen : ¬ (cstr entry).length < 3) :
    ((∀ k < 4, Separated (timeRest^[k] (cstr entry))) ∧ (timeField 4 (cstr entry)).length < 100 →
      checkTime tm rounds entry = cronAll rounds (timeFields tm (cstr entry))) ∧
    (¬ ((∀ k < 4, Separated (timeRest^[k] (cstr entry))) ∧
      (timeField 4 (cstr entry)).length < 100) → checkTime tm rounds entry = none) := by
  unfold checkTime
  simp only
  rw [if_neg hlen]
  have h0 : ∀ k, 0 ∉ timeRest^[k] (cstr entry) := fun k h =>
    zero_not_mem_cstr entry ((timeRest_iterate_suffix k _).subset h)
  generalize cstr entry = s at h0 ⊢
  -- the text at each of the five fields
  obtain ⟨e₁, he₁⟩ : ∃ e, timeRest s = e := ⟨_, rfl⟩
  obtain ⟨e₂, he₂⟩ : ∃ e, timeRest e₁ = e := ⟨_, rfl⟩
  obtain ⟨e₃, he₃⟩ : ∃ e, timeRest e₂ = e := ⟨_, rfl⟩
  obtain ⟨e₄, he₄⟩ : ∃ e, timeRest e₃ = e := ⟨_, rfl⟩
  have hfields : timeFields tm s = [(timeWord s, tm.min), (timeWord e₁, tm.hour),
      (timeWord e₂, tm.mday), (timeWord e₃, tm.mon + 1), (timeWord e₄, tm.wday)] := by
    rw [← he₄, ← he₃, ← he₂, ← he₁]
    rfl
  have hsep : (∀ k < 4, Separated (timeRest^[k] s)) ↔
      Separated s ∧ Separated e₁ ∧ Separated e₂ ∧ Separated e₃ := by
    rw [← he₃, ← he₂, ← he₁]
    constructor
    · intro h
      exact ⟨h 0 (by decide), h 1 (by decide), h 2 (by decide), h 3 (by decide)⟩
    · rintro ⟨h₀, h₁, h₂, h₃⟩ k hk
      match k, hk with
      | 0, _ => exact h₀
      | 1, _ => exact h₁
      | 2, _ => exact h₂
      | 3, _ => exact h₃
  have hfield : timeField 4 s = timeWord e₄ := by
    rw [← he₄, ← he₃, ← he₂, ← he₁]
    rfl
  have hz₀ : 0 ∉ s := h0 0
  have hz₁ : 0 ∉ e₁ := he₁ ▸ h0 1
  have hz₂ : 0 ∉ e₂ := he₂ ▸ he₁ ▸ h0 2
  have hz₃ : 0 ∉ e₃ := he₃ ▸ he₂ ▸ he₁ ▸ h0 3
  have hz₄ : 0 ∉ e₄ := he₄ ▸ he₃ ▸ he₂ ▸ he₁ ▸ h0 4
  have hlast := copyTimeField_true (j := 0) (by decide) hz₄
  rw [Nat.zero_add] at hlast
  rw [hsep, hfields, hfield]
  simp only [bind]
  by_cases s₀ : Separated s
  · rw [(copyTimeField_bind hz₀ _).1 s₀]
    simp only [skipSpaces_append, he₁]
    by_cases s₁ : Separated e₁
    · rw [(copyTimeField_bind hz₁ _).1 s₁]
      simp only [skipSpaces_append, he₂]
      by_cases s₂ : Separated e₂
      · rw [(copyTimeField_bind hz₂ _).1 s₂]
        simp only [skipSpaces_append, he₃]
        by_cases s₃ : Separated e₃
        · rw [(copyTimeField_bind hz₃ _).1 s₃]
          simp only [skipSpaces_append, he₄, hlast]
          by_cases hfit : (timeWord e₄).length < 100
          · simp [s₀, s₁, s₂, s₃, hfit]
          · simp [hfit]
        · simp [(copyTimeField_bind hz₃ _).2 s₃, s₃]
      · simp [(copyTimeField_bind hz₂ _).2 s₂, s₂]
    · simp [(copyTimeField_bind hz₁ _).2 s₁, s₁]
  · simp [(copyTimeField_bind hz₀ _).2 s₀, s₀]

/-! ## Fields that are not there -/

theorem timeWord_eq_nil_iff : timeWord s = [] ↔ s = [] ∨ s.head? = some 32 := by
  cases s with
  | nil => simp [timeWord]
  | cons c s => by_cases hc : c = 32 <;> simp [timeWord, hc]

theorem head_timeRest (s : Bytes) : (timeRest s).head? ≠ some 32 := by
  unfold timeRest skipSpaces
  generalize s.dropWhile (· ≠ 32) = t
  induction t with
  | nil => simp
  | cons c t ih =>
    by_cases hc : c = 32
    · rw [List.dropWhile_cons_of_pos (by simpa using hc)]
      exact ih
    · rw [List.dropWhile_cons_of_neg (by simpa using hc)]
      exact fun h => hc (Option.some.inj h)

/-- The four arrays in front of the last one have bytes in them. -/
theorem timeField_ne_nil {k : ℕ} (hk : k < 4) (hfirst : s.head? ≠ some 32)
    (hsep : Separated (timeRest^[k] s)) : timeField k s ≠ [] := by
  rw [timeField, ne_eq, timeWord_eq_nil_iff, not_or]
  refine ⟨List.ne_nil_of_mem hsep.1, ?_⟩
  cases k with
  | zero => exact hfirst
  | succ k =>
    rw [Function.iterate_succ_apply']
    exact head_timeRest _

/-- The calls of `cron_parse` use the last array if and only if all others return true. -/
theorem cronAll_concat [LongWidth] {l : List (Bytes × ℤ)} (hl : ∀ x ∈ l, x.1 ≠ []) (x : Bytes × ℤ) :
    cronAll rounds (l ++ [x]) = none ↔
      x.1 = [] ∧ ∀ y ∈ l, cronParse y.2 rounds y.1 = .ends true := by
  induction l with
  | nil =>
    rw [List.nil_append, cronAll]
    split
    · next hx => simp [hx]
    · next hx =>
      simp only [hx, false_and, iff_false]
      split
      · simp [cronAll]
      · simp
  | cons y l ih =>
    rw [List.cons_append, cronAll, if_neg (hl y (List.mem_cons_self ..)), List.forall_mem_cons]
    split
    · next hy =>
      rw [ih fun z hz => hl z (List.mem_cons_of_mem y hz)]
      simp [hy]
    · next hy =>
      simp only [reduceCtorEq, false_iff, not_and]
      exact fun _ h => absurd h hy

/-- Calls that return true do so in one number of rounds. -/
theorem exists_rounds [LongWidth] {l : List (Bytes × ℤ)} (h : ∀ y ∈ l, CronReturns y.2 y.1 true) :
    ∃ n, ∀ y ∈ l, cronParse y.2 n y.1 = .ends true := by
  induction l with
  | nil => exact ⟨0, by simp⟩
  | cons x l ih =>
    obtain ⟨hx, hl⟩ := List.forall_mem_cons.mp h
    obtain ⟨n, hn⟩ := hx
    obtain ⟨m, hm⟩ := ih hl
    refine ⟨n + m, List.forall_mem_cons.mpr ⟨cronParse_add m (by rintro ⟨⟩) hn, fun y hy => ?_⟩⟩
    rw [Nat.add_comm]
    exact cronParse_add n (by rintro ⟨⟩) (hm y hy)

/-- Half past two, on Monday 5 January. -/
def mondayTm : CronTm := ⟨30, 2, 5, 0, 1⟩

end Tacppd
