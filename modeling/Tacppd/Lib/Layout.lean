/-
# Texts in a buffer

A general development on top of the guarded buffers: where a text stands, and what a
writer that puts one text behind the other leaves.

A reader that knows the offset and the length of a text gets it back
(`Holds.text_eq`).  A writer starts with a cleared buffer; the rest of the buffer stays
clear (`ensures_strcpy`).  Both speak of offsets only, so that they may come to the same
place in different ways.
-/
import Tacppd.Lib.Guarded

namespace Guarded

variable {α : Type*}

/-! ## Where a text stands -/

/-- From `off` on the buffer has the elements of `s`. -/
def Holds (mem : List α) (off : ℕ) (s : List α) : Prop := s <+: mem.drop off

section

variable {mem s t : List α} {off : ℕ} {a : α}

@[simp] theorem holds_nil : Holds mem off [] := List.nil_prefix

theorem holds_self (mem : List α) : Holds mem 0 mem := List.prefix_rfl

/-- Behind a text stands what follows it. -/
theorem holds_append_iff :
    Holds mem off (s ++ t) ↔ Holds mem off s ∧ Holds mem (off + s.length) t := by
  rw [Holds, Holds, Holds, ← List.drop_drop]
  constructor
  · rintro ⟨tail, htail⟩
    refine ⟨⟨t ++ tail, by rw [← htail, List.append_assoc]⟩, ⟨tail, ?_⟩⟩
    rw [← htail, List.append_assoc, List.drop_left]
  · rintro ⟨⟨tail, htail⟩, ⟨tail', htail'⟩⟩
    refine ⟨tail', ?_⟩
    rw [← htail, List.drop_left] at htail'
    rw [List.append_assoc, htail', htail]

theorem holds_cons_iff :
    Holds mem off (a :: s) ↔ mem[off]? = some a ∧ Holds mem (off + 1) s := by
  rw [← List.singleton_append, holds_append_iff, List.length_singleton]
  refine and_congr_left fun _ => ?_
  rw [Holds, ← List.head?_drop]
  cases mem.drop off with
  | nil => simp
  | cons b l => simp [List.cons_prefix_cons, eq_comm]

theorem Holds.length_le (h : Holds mem off s) : s.length ≤ mem.length - off := by
  rw [← List.length_drop]
  exact List.IsPrefix.length_le h

theorem Holds.take_eq (h : Holds mem off s) : (mem.drop off).take s.length = s :=
  (List.prefix_iff_eq_take.mp h).symm

theorem Holds.readable (h : Holds mem off s) (stop : α) : Readable stop mem off s.length := by
  intro j hj
  left
  have hle := h.length_le
  omega

/-- A text without the stop mark is read back. -/
theorem Holds.text_eq [DecidableEq α] {stop : α} (h : Holds mem off s) (hs : stop ∉ s) :
    text stop mem off s.length = s := by
  rw [text, h.take_eq, List.takeWhile_eq_self_iff]
  intro b hb
  simpa using fun hstop : b = stop => hs (hstop ▸ hb)

end

/-! ## Writing texts one behind the other -/

/-- Write a list of elements from position `i` on. -/
def write (buf : List α) (i : ℕ) : List α → Option (List α)
  | [] => some buf
  | a :: s => (put buf i a).bind fun buf => write buf (i + 1) s

theorem write_append (done rest s : List α) :
    write (done ++ rest) done.length s =
      if s.length ≤ rest.length then some (done ++ s ++ rest.drop s.length) else none := by
  induction s generalizing done rest with
  | nil => simp [write]
  | cons a s ih =>
    rw [write]
    cases rest with
    | nil =>
      rw [List.append_nil, put_length]
      simp
    | cons c rest =>
      have hlen : done.length + 1 = (done ++ [a]).length := by simp
      rw [put_append_cons, Option.bind_some, hlen, ih]
      simp

/-- A buffer of `cap` elements that is clear behind what has been written. -/
def clearBehind (clear : α) (cap : ℕ) (done : List α) : List α :=
  done ++ List.replicate (cap - done.length) clear

/-- A copy that ends with the stop mark, as of a C string. -/
def strcpy (stop : α) (buf : List α) (i : ℕ) (s : List α) : Option (List α) :=
  write buf i (s ++ [stop])

/-- Copy a text, and move behind it. -/
def strcpyNext (stop : α) (buf : List α) (i : ℕ) (s : List α) : Option (List α × ℕ) :=
  (strcpy stop buf i s).map fun buf => (buf, i + s.length)

/-- Copy texts one behind the other. -/
def strcpyAll (stop : α) (buf : List α) (i : ℕ) : List (List α) → Option (List α × ℕ)
  | [] => some (buf, i)
  | s :: texts => (strcpy stop buf i s).bind fun buf => strcpyAll stop buf (i + s.length) texts

/-- A copy of `n` elements, as of a C string that may be shorter. -/
def copyPadded (stop : α) (buf : List α) (i : ℕ) (s : List α) (n : ℕ) : Option (List α) :=
  write buf i (s.take n ++ List.replicate (n - s.length) stop)

/-- What a copy of `n` elements leaves of a text. -/
def kept (stop : α) (n : ℕ) (s : List α) : List α :=
  s.take n ++ List.replicate (s.length - n) stop

/-- The first `n` elements of a buffer. -/
def front (buf : List α) (n : ℕ) : Option (List α) :=
  if n ≤ buf.length then some (buf.take n) else none

section

variable {clear : α} {cap : ℕ} {done s : List α} {post : List α → Prop}

/-- The elements go behind what has been written. -/
theorem ensures_write :
    Ensures (write (clearBehind clear cap done) done.length s) post ↔
      s.length ≤ cap - done.length ∧ post (clearBehind clear cap (done ++ s)) := by
  rw [clearBehind, write_append, List.length_replicate]
  split
  · next hfit =>
    rw [ensures_some, and_iff_right hfit, clearBehind, List.drop_replicate, List.length_append]
    have hrest : cap - done.length - s.length = cap - (done.length + s.length) := by omega
    rw [hrest]
  · next hfit => simp [hfit]

/-- Clear elements behind the written part are as good as none. -/
theorem clearBehind_append_replicate {k : ℕ} (h : k ≤ cap - done.length) :
    clearBehind clear cap (done ++ List.replicate k clear) = clearBehind clear cap done := by
  have hrest : cap - done.length = k + (cap - (done.length + k)) := by omega
  rw [clearBehind, clearBehind, List.length_append, List.length_replicate, List.append_assoc,
    List.replicate_append_replicate, ← hrest]

/-- The stop mark is one of the clear elements behind the text. -/
theorem ensures_strcpy :
    Ensures (strcpy clear (clearBehind clear cap done) done.length s) post ↔
      s.length < cap - done.length ∧ post (clearBehind clear cap (done ++ s)) := by
  rw [strcpy, ensures_write, List.length_append, List.length_singleton]
  refine and_congr_right fun hfit => ?_
  have hclear := @clearBehind_append_replicate α clear cap (done ++ s) 1
    (by rw [List.length_append]; omega)
  rw [← List.append_assoc, ← hclear]
  rfl

theorem length_kept (n : ℕ) (s : List α) : (kept clear n s).length = s.length := by
  rw [kept, List.length_append, List.length_take, List.length_replicate]
  omega

theorem kept_eq_self {n : ℕ} (h : s.length ≤ n) : kept clear n s = s := by
  rw [kept, List.take_of_length_le h, Nat.sub_eq_zero_of_le h, List.replicate_zero,
    List.append_nil]

/-- The padding of a copy is clear, too. -/
theorem ensures_copyPadded {n : ℕ} (h : s.length ≤ cap - done.length) :
    Ensures (copyPadded clear (clearBehind clear cap done) done.length s n) post ↔
      n ≤ cap - done.length ∧ post (clearBehind clear cap (done ++ kept clear n s)) := by
  have hlen : (s.take n ++ List.replicate (n - s.length) clear).length = n := by
    rw [List.length_append, List.length_take, List.length_replicate]
    omega
  rw [copyPadded, ensures_write, hlen, kept]
  refine and_congr_right fun hfit => ?_
  have hpad := @clearBehind_append_replicate α clear cap (done ++ s.take n) (n - s.length) (by
    rw [List.length_append, List.length_take]
    omega)
  have hcut := @clearBehind_append_replicate α clear cap (done ++ s.take n) (s.length - n) (by
    rw [List.length_append, List.length_take]
    omega)
  rw [← List.append_assoc, hpad, ← List.append_assoc, hcut]

/-- The elements go to the front, in place of others. -/
theorem ensures_overwrite {old : List α} (h : old.length = s.length) :
    Ensures (write (clearBehind clear cap (old ++ done)) 0 s) post ↔
      post (clearBehind clear cap (s ++ done)) := by
  have hwrite := write_append [] (clearBehind clear cap (old ++ done)) s
  have hle : s.length ≤ (clearBehind clear cap (old ++ done)).length := by
    simp only [clearBehind, List.length_append]
    omega
  have hdrop : (clearBehind clear cap (old ++ done)).drop s.length =
      done ++ List.replicate (cap - (old ++ done).length) clear := by
    rw [clearBehind, List.append_assoc, ← h, List.drop_left]
  rw [if_pos hle, hdrop] at hwrite
  simp only [List.nil_append, List.length_nil] at hwrite
  rw [hwrite, ensures_some, clearBehind, List.append_assoc, List.length_append, h,
    List.length_append]

theorem ensures_strcpyNext {post : List α × ℕ → Prop} :
    Ensures (strcpyNext clear (clearBehind clear cap done) done.length s) post ↔
      s.length < cap - done.length ∧
        post (clearBehind clear cap (done ++ s), (done ++ s).length) := by
  rw [strcpyNext, ensures_map, ensures_strcpy, List.length_append]

/-- Where there is a text at all, one stop mark needs a place behind the last. -/
theorem ensures_strcpyAll {texts : List (List α)} {post : List α × ℕ → Prop} :
    Ensures (strcpyAll clear (clearBehind clear cap done) done.length texts) post ↔
      (texts = [] ∨ texts.flatten.length < cap - done.length) ∧
        post (clearBehind clear cap (done ++ texts.flatten), (done ++ texts.flatten).length) := by
  induction texts generalizing done with
  | nil => simp [strcpyAll]
  | cons s texts ih =>
    have hnext : done.length + s.length = (done ++ s).length := by simp
    rw [strcpyAll, ensures_bind, ensures_strcpy, hnext, ih, ← and_assoc, List.flatten_cons,
      List.append_assoc]
    refine and_congr_left fun _ => ?_
    rw [or_iff_right (List.cons_ne_nil _ _), List.length_append, List.length_append]
    constructor
    · rintro ⟨hs, rfl | hrest⟩
      · simpa using hs
      · omega
    · intro h
      exact ⟨by omega, Or.inr (by omega)⟩

/-- The written part of a buffer is there. -/
theorem ensures_front {t : List α} (ht : t <+: done) :
    Ensures (front (clearBehind clear cap done) t.length) post ↔ post t := by
  obtain ⟨rest, rfl⟩ := ht
  have hle : t.length ≤ (clearBehind clear cap (t ++ rest)).length := by
    simp only [clearBehind, List.length_append]
    omega
  rw [front, if_pos hle, ensures_some, clearBehind, List.append_assoc, List.take_left]

end

end Guarded
