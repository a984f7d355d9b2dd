/-
# Buffers with guarded access

A general development: a buffer is a list, and every read and every write of it is
checked against its length.  A computation that leaves a buffer has no result.

The copy of a text that ends at a stop mark reads up to the mark and writes all the
positions it was given, with the mark in the rest of them.  It has a result exactly
when what it reads is inside the source and what it writes is inside the destination
(`copyUntil_eq_some_iff`).
-/
import Mathlib.Data.List.Basic
import Mathlib.Data.List.TakeWhile

namespace Guarded

universe u

variable {α : Type*}

variable {β γ : Type*}

/-! ## Results

What a guarded computation comes to, by the rules for its steps. -/

/-- The computation has a result, and the result is as asked for. -/
def Ensures (run : Option β) (post : β → Prop) : Prop := ∃ r, run = some r ∧ post r

@[simp] theorem ensures_none (post : β → Prop) : Ensures none post ↔ False := by
  simp [Ensures]

@[simp] theorem ensures_some {r : β} {post : β → Prop} : Ensures (some r) post ↔ post r := by
  simp [Ensures]

theorem isSome_iff_ensures {run : Option β} : run.isSome = true ↔ Ensures run fun _ => True := by
  cases run <;> simp

theorem ensures_bind {run : Option β} {next : β → Option γ} {post : γ → Prop} :
    Ensures (run.bind next) post ↔ Ensures run fun r => Ensures (next r) post := by
  cases run <;> simp

/-- The same in `do` notation. -/
theorem ensures_do {β γ : Type u} {run : Option β} {next : β → Option γ} {post : γ → Prop} :
    Ensures (run >>= next) post ↔ Ensures run fun r => Ensures (next r) post := ensures_bind

theorem ensures_map {run : Option β} {f : β → γ} {post : γ → Prop} :
    Ensures (run.map f) post ↔ Ensures run fun r => post (f r) := by
  cases run <;> simp

theorem ensures_ite {c : Prop} [Decidable c] {run run' : Option β} {post : β → Prop} :
    Ensures (if c then run else run') post ↔ if c then Ensures run post else Ensures run' post := by
  split <;> rfl

/-- What does not depend on the result. -/
theorem ensures_and {run : Option β} {p : Prop} :
    (Ensures run fun _ => p) ↔ (Ensures run fun _ => True) ∧ p := by
  cases run <;> simp

/-- Computations one after the other. -/
theorem ensures_mapM {β γ : Type u} {l : List β} {run : β → Option γ} :
    (Ensures (l.mapM run) fun _ => True) ↔ ∀ b ∈ l, Ensures (run b) fun _ => True := by
  induction l with
  | nil => simp
  | cons b l ih =>
    have hrest : ∀ r, (Ensures (do let rs ← l.mapM run; pure (r :: rs)) fun _ => True) ↔
        Ensures (l.mapM run) fun _ => True := by
      intro r
      rw [ensures_do]
      simp
    rw [List.mapM_cons, ensures_do]
    simp only [hrest]
    rw [ensures_and, ih, List.forall_mem_cons]

/-- A read of one position, with some value for the positions outside. -/
theorem ensures_read {mem : List α} {i : ℕ} {post : α → Prop} (d : α) :
    Ensures mem[i]? post ↔ i < mem.length ∧ post (mem.getD i d) := by
  rcases Nat.lt_or_ge i mem.length with hi | hi
  · simp [hi, List.getD_eq_getElem?_getD]
  · simp [Nat.not_lt.mpr hi]

/-- Two computations with the same results. -/
theorem ensures_of_iff {run : Option β} {p : Prop} {r : β}
    (h : ∀ r', run = some r' ↔ p ∧ r' = r) {post : β → Prop} :
    Ensures run post ↔ p ∧ post r := by
  simp [Ensures, h]

/-! ## One position -/

/-- Write one position. -/
def put (buf : List α) (i : ℕ) (a : α) : Option (List α) :=
  if i < buf.length then some (buf.set i a) else none

theorem put_eq_some_iff {buf buf' : List α} {i : ℕ} {a : α} :
    put buf i a = some buf' ↔ i < buf.length ∧ buf' = buf.set i a := by
  rw [put]
  split <;> simp [*, eq_comm]

/-- Write the first position of what is left. -/
theorem put_append_cons (done rest : List α) (c a : α) :
    put (done ++ c :: rest) done.length a = some (done ++ [a] ++ rest) := by
  rw [put, if_pos (by simp)]
  simp

/-- Nothing is left to write to. -/
theorem put_length (done : List α) (a : α) : put done done.length a = none := by
  rw [put, if_neg (Nat.lt_irrefl _)]

/-! ## The same value in a row -/

/-- Write the same value to `n` positions from the `i`-th on. -/
def fillFrom (a : α) (buf : List α) (i : ℕ) : ℕ → Option (List α)
  | 0 => some buf
  | n + 1 => (put buf i a).bind fun buf => fillFrom a buf (i + 1) n

theorem fillFrom_eq_some_iff {a : α} {done rest buf : List α} {n : ℕ} :
    fillFrom a (done ++ rest) done.length n = some buf ↔
      n ≤ rest.length ∧ buf = done ++ List.replicate n a ++ rest.drop n := by
  induction n generalizing done rest with
  | zero => simp [fillFrom, eq_comm]
  | succ n ih =>
    rw [fillFrom]
    cases rest with
    | nil =>
      rw [List.append_nil, put_length]
      simp
    | cons c rest =>
      have hlen : done.length + 1 = (done ++ [a]).length := by simp
      rw [put_append_cons, Option.bind_some, hlen, ih, List.replicate_succ]
      simp

/-! ## Texts -/

variable (stop : α) (mem : List α)

/-- Every position that a copy of up to `n` elements reads is inside. -/
def Readable (off n : ℕ) : Prop :=
  ∀ j < n, off + j < mem.length ∨ ∃ k < j, mem[off + k]? = some stop

theorem readable_zero (off : ℕ) : Readable stop mem off 0 := by
  intro j hj
  omega

theorem readable_succ_iff {off n : ℕ} :
    Readable stop mem off (n + 1) ↔
      off < mem.length ∧ (mem[off]? = some stop ∨ Readable stop mem (off + 1) n) := by
  constructor
  · intro h
    have hoff : off < mem.length := by
      rcases h 0 (by omega) with h0 | ⟨k, hk, -⟩
      · simpa using h0
      · omega
    refine ⟨hoff, or_iff_not_imp_left.mpr fun hstop j hj => ?_⟩
    rcases h (j + 1) (by omega) with hj' | ⟨k, hk, hkstop⟩
    · left
      omega
    · right
      cases k with
      | zero => exact absurd hkstop hstop
      | succ k => exact ⟨k, by omega, by rwa [Nat.add_right_comm, Nat.add_assoc]⟩
  · rintro ⟨hoff, hrest⟩ j hj
    cases j with
    | zero => exact Or.inl hoff
    | succ j =>
      rcases hrest with hstop | hrest
      · exact Or.inr ⟨0, by omega, hstop⟩
      · rcases hrest j (by omega) with hj' | ⟨k, hk, hkstop⟩
        · left
          omega
        · exact Or.inr ⟨k + 1, by omega, by rwa [Nat.add_right_comm, Nat.add_assoc] at hkstop⟩

/-- What lies inside as a whole is readable. -/
theorem readable_of_le {off n : ℕ} (h : off + n ≤ mem.length) : Readable stop mem off n := by
  intro j hj
  left
  omega

variable [DecidableEq α]

/-- The elements before the stop mark, `n` at most. -/
def text (off n : ℕ) : List α := ((mem.drop off).take n).takeWhile (· ≠ stop)

/-- What the copy of `n` elements writes: the text, and the stop mark after it. -/
def copied (off n : ℕ) : List α :=
  text stop mem off n ++ List.replicate (n - (text stop mem off n).length) stop

theorem length_text_le (off n : ℕ) : (text stop mem off n).length ≤ n :=
  Nat.le_trans (List.takeWhile_prefix _).length_le (List.length_take_le n _)

@[simp] theorem length_copied (off n : ℕ) : (copied stop mem off n).length = n := by
  have hle := length_text_le stop mem off n
  rw [copied, List.length_append, List.length_replicate]
  omega

/-- The mark does not occur in a text. -/
theorem stop_not_mem_text (off n : ℕ) : stop ∉ text stop mem off n := by
  intro h
  simpa using List.mem_takeWhile_imp h

/-- Cut off at the mark, a copy that the mark or nothing follows is the text. -/
theorem takeWhile_copied_append (off n : ℕ) {tail : List α}
    (htail : tail.takeWhile (· ≠ stop) = []) :
    (copied stop mem off n ++ tail).takeWhile (· ≠ stop) = text stop mem off n := by
  rw [copied, List.append_assoc, List.takeWhile_append_of_pos]
  · cases n - (text stop mem off n).length with
    | zero => rw [List.replicate_zero, List.nil_append, htail, List.append_nil]
    | succ k => simp [List.replicate_succ]
  · intro a ha
    simpa using fun h : a = stop => stop_not_mem_text stop mem off n (h ▸ ha)

theorem text_succ_of_stop {off : ℕ} (n : ℕ) (h : mem[off]? = some stop) :
    text stop mem off (n + 1) = [] := by
  obtain ⟨hoff, hb⟩ := List.getElem?_eq_some_iff.mp h
  rw [text, List.drop_eq_getElem_cons hoff, List.take_succ_cons, hb, List.takeWhile_cons]
  simp

theorem text_succ {off : ℕ} (n : ℕ) {b : α} (h : mem[off]? = some b) (hb : b ≠ stop) :
    text stop mem off (n + 1) = b :: text stop mem (off + 1) n := by
  obtain ⟨hoff, rfl⟩ := List.getElem?_eq_some_iff.mp h
  rw [text, List.drop_eq_getElem_cons hoff, List.take_succ_cons, List.takeWhile_cons]
  simp [hb, text]

/-- Copy up to `n` elements of `mem` from `off` on to the positions of `buf` from `i` on;
after the stop mark the rest of the positions get it too. -/
def copyUntil (buf : List α) (off i : ℕ) : ℕ → Option (List α)
  | 0 => some buf
  | n + 1 =>
    match mem[off]? with
    | none => none
    | some b =>
      (put buf i b).bind fun buf =>
        if b = stop then fillFrom stop buf (i + 1) n else copyUntil buf (off + 1) (i + 1) n

/-- **When a copy stays inside its buffers**, and what it leaves. -/
theorem copyUntil_eq_some_iff {done rest buf : List α} {off n : ℕ} :
    copyUntil stop mem (done ++ rest) off done.length n = some buf ↔
      Readable stop mem off n ∧ n ≤ rest.length ∧
        buf = done ++ copied stop mem off n ++ rest.drop n := by
  induction n generalizing off done rest with
  | zero => simp [copyUntil, readable_zero, copied, text, eq_comm]
  | succ n ih =>
    rw [copyUntil, readable_succ_iff]
    cases hb : mem[off]? with
    | none =>
      have hout := List.getElem?_eq_none_iff.mp hb
      simp only [reduceCtorEq, false_iff]
      rintro ⟨⟨hoff, -⟩, -⟩
      omega
    | some b =>
      obtain ⟨hoff, -⟩ := List.getElem?_eq_some_iff.mp hb
      cases rest with
      | nil =>
        simp only [List.append_nil, put_length]
        simp
      | cons c rest =>
        have hlen : done.length + 1 = (done ++ [b]).length := by simp
        simp only
        rw [put_append_cons, Option.bind_some, hlen]
        by_cases hstop : b = stop
        · -- the mark: the rest of the positions is filled
          subst hstop
          rw [if_pos rfl, fillFrom_eq_some_iff, copied, text_succ_of_stop b mem n hb]
          simp [hoff, List.replicate_succ]
        · rw [if_neg hstop, ih, copied, copied, text_succ stop mem n hb hstop]
          simp [hoff, hstop]

/-- The copy to the front of a buffer. -/
theorem copyUntil_zero_eq_some_iff {buf buf' : List α} {off n : ℕ} :
    copyUntil stop mem buf off 0 n = some buf' ↔
      (Readable stop mem off n ∧ n ≤ buf.length) ∧ buf' = copied stop mem off n ++ buf.drop n := by
  rw [and_assoc]
  exact @copyUntil_eq_some_iff α stop mem _ [] buf buf' off n

end Guarded
