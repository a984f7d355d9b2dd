/-
# Byte strings and the C string functions

The C++ code keeps its texts in `char` arrays and in `std::string`s built from
them.  Here both are lists of bytes: a C string is the list of its bytes before
the terminating NUL.

An access outside an object has no meaning in C++.  The functions that read
memory return `none` there, and whoever calls them stops.
-/
import Mathlib.Data.List.Basic
import Mathlib.Data.List.Infix
import Mathlib.Data.List.TakeWhile

namespace Tacppd

/-- The contents of a `char` array or of a `std::string`. -/
abbrev Bytes := List UInt8

/-- The bytes of a literal of the source. -/
def str (s : String) : Bytes := s.toList.map (fun c => c.toNat.toUInt8)

/-- The C string that starts at a pointer: the bytes before the first NUL. -/
def cstr (b : Bytes) : Bytes := b.takeWhile (· ≠ 0)

/-- `snprintf(buf, n, "%s", s)`: what a buffer holds after it, cut to `n - 1`
bytes. -/
def snprintf (n : ℕ) (s : Bytes) : Bytes := (cstr s).take (n - 1)

/-- `utl::scomp(s1, s2)`: equality of two C strings. -/
def scomp (s1 s2 : Bytes) : Bool := s1 == s2

/-- `utl::scomp(s1, s2, num)`: both strings have `num` bytes and agree on them. -/
def scompNum (s1 s2 : Bytes) (num : ℕ) : Bool :=
  !(decide (s1.length < num) || decide (s2.length < num)) && s1.take num == s2.take num

@[simp] theorem scomp_iff (s1 s2 : Bytes) : scomp s1 s2 = true ↔ s1 = s2 := by
  simp [scomp]

/-- The check for a keyword at the start of a text. -/
theorem scompNum_iff {v t : Bytes} : scompNum v t t.length = true ↔ t <+: v := by
  simp only [scompNum, List.take_length, Bool.and_eq_true, Bool.not_eq_true', Bool.or_eq_false_iff,
    decide_eq_false_iff_not, Nat.not_lt, Nat.le_refl, and_true, beq_iff_eq]
  constructor
  · rintro ⟨_, ht⟩
    rw [← ht]
    exact List.take_prefix _ _
  · intro h
    exact ⟨h.length_le, (List.prefix_iff_eq_take.mp h).symm⟩

/-! ## C strings -/

@[simp] theorem cstr_nil : cstr [] = [] := rfl

/-- A text in which a byte does not stand, as the conditions of the loops have it. -/
theorem forall_ne {b : Bytes} {stop : UInt8} (h : stop ∉ b) :
    ∀ x ∈ b, decide (x ≠ stop) = true := by
  intro x hx
  apply decide_eq_true
  rintro rfl
  exact h hx

/-- A text is read up to a byte that does not stand in it. -/
theorem takeWhile_until {b rest : Bytes} {stop : UInt8} (h : stop ∉ b) :
    (b ++ stop :: rest).takeWhile (· ≠ stop) = b := by
  rw [List.takeWhile_append_of_pos (forall_ne h), List.takeWhile_cons_of_neg (by simp),
    List.append_nil]

theorem dropWhile_until {b rest : Bytes} {stop : UInt8} (h : stop ∉ b) :
    (b ++ stop :: rest).dropWhile (· ≠ stop) = stop :: rest := by
  rw [List.dropWhile_append_of_pos (forall_ne h), List.dropWhile_cons_of_neg (by simp)]

/-- A byte list without NUL is the C string it holds. -/
theorem cstr_eq_self {b : Bytes} (h : (0 : UInt8) ∉ b) : cstr b = b := by
  rw [cstr, List.takeWhile_eq_self_iff]
  exact forall_ne h

/-- A C string has no NUL in it. -/
theorem zero_not_mem_cstr (b : Bytes) : (0 : UInt8) ∉ cstr b := by
  intro h
  simpa using List.mem_takeWhile_imp h

/-- What stands behind a NUL does not matter. -/
theorem cstr_append_zero {b : Bytes} (h : (0 : UInt8) ∉ b) (more : Bytes) :
    cstr (b ++ 0 :: more) = b := takeWhile_until h

/-- A C string goes on behind a text without NUL. -/
theorem cstr_append {b : Bytes} (h : (0 : UInt8) ∉ b) (more : Bytes) :
    cstr (b ++ more) = b ++ cstr more := List.takeWhile_append_of_pos (forall_ne h)

/-- Where there is a NUL, one stands behind the C string. -/
theorem exists_eq_cstr_append {b : Bytes} (h : (0 : UInt8) ∈ b) :
    ∃ more, b = cstr b ++ 0 :: more := by
  induction b with
  | nil => exact absurd h List.not_mem_nil
  | cons x b ih =>
    by_cases hx : x = 0
    · exact ⟨b, by rw [hx]; rfl⟩
    · obtain ⟨more, hmore⟩ := ih ((List.mem_cons.mp h).resolve_left (Ne.symm hx))
      have hcons : cstr (x :: b) = x :: cstr b :=
        List.takeWhile_cons_of_pos (decide_eq_true hx)
      refine ⟨more, ?_⟩
      rw [hcons, List.cons_append, ← hmore]

theorem length_cstr_le (b : Bytes) : (cstr b).length ≤ b.length :=
  (List.takeWhile_prefix _).length_le

/-- A text that fits its buffer is stored whole. -/
theorem snprintf_eq_self {n : ℕ} {s : Bytes} (h0 : (0 : UInt8) ∉ s) (hn : s.length ≤ n - 1) :
    snprintf n s = s := by
  rw [snprintf, cstr_eq_self h0, List.take_of_length_le hn]

/-- What a buffer holds is the front of the string. -/
theorem isPrefix_snprintf (n : ℕ) (s : Bytes) : snprintf n s <+: s :=
  (List.take_prefix _ _).trans (List.takeWhile_prefix _)

theorem snprintf_snprintf (n : ℕ) (s : Bytes) : snprintf n (snprintf n s) = snprintf n s := by
  apply snprintf_eq_self
  · intro h0
    exact zero_not_mem_cstr s (List.mem_of_mem_take h0)
  · exact List.length_take_le _ _

/-- The front of a text that fits the buffer is kept. -/
theorem snprintf_append {n : ℕ} {pre : Bytes} (hpre : (0 : UInt8) ∉ pre)
    (hlen : pre.length + 1 ≤ n) (t : Bytes) :
    snprintf n (pre ++ t) = pre ++ snprintf (n - pre.length) t := by
  unfold snprintf
  rw [cstr_append hpre, List.take_append, List.take_of_length_le (by omega)]
  congr 2
  omega

/-! ## Guarded reads -/

/-- `strncpy(dst, mem + off, n)` as far as its reads go: it copies up to `n`
bytes and reads no further than a NUL.  The result is the C string that is
copied, `none` when a read falls outside `mem`. -/
def strncpy (mem : Bytes) : ℕ → ℕ → Option Bytes
  | _, 0 => some []
  | off, n + 1 =>
    match mem[off]? with
    | none => none
    | some b => if b = 0 then some [] else (strncpy mem (off + 1) n).map (b :: ·)

/-- What `strncpy` copies is the C string of the field, also where the field runs out
of the object and a NUL ends the copy before. -/
theorem eq_of_strncpy {mem s : Bytes} {off n : ℕ} (h : strncpy mem off n = some s) :
    s = cstr ((mem.drop off).take n) := by
  induction n generalizing off s with
  | zero =>
    obtain rfl := Option.some.inj h
    simp
  | succ n ih =>
    rw [strncpy] at h
    rcases Nat.lt_or_ge off mem.length with hoff | hoff
    · rw [List.getElem?_eq_getElem hoff] at h
      rw [List.drop_eq_getElem_cons hoff, List.take_succ_cons, cstr, List.takeWhile_cons]
      simp only at h
      by_cases hz : mem[off] = 0
      · rw [if_pos hz] at h
        obtain rfl := Option.some.inj h
        simp [hz]
      · rw [if_neg hz] at h
        obtain ⟨t, ht, rfl⟩ := Option.map_eq_some_iff.mp h
        simp [hz, ih ht, cstr]
    · rw [List.getElem?_eq_none hoff] at h
      contradiction

/-- Zero bytes after a buffer add nothing to the C strings in it. -/
theorem cstr_field_append_zeros (mem : Bytes) (k off n : ℕ) :
    cstr (((mem ++ List.replicate k 0).drop off).take n) = cstr ((mem.drop off).take n) := by
  have hzeros : ∀ j, cstr (List.replicate j 0) = [] := by
    intro j
    cases j <;> simp [cstr]
  have happend : ∀ (b : Bytes) (j : ℕ), cstr (b ++ List.replicate j 0) = cstr b := by
    intro b j
    induction b with
    | nil => simpa using hzeros j
    | cons c b ih =>
      by_cases hc : c = 0
      · simp [cstr, hc]
      · simpa [cstr, hc] using ih
  rw [List.drop_append, List.take_append, List.drop_replicate, List.take_replicate, happend]

/-- A buffer of `cap` bytes read as a C string: `none` when it is full and so
holds no NUL. -/
def terminated (cap : ℕ) (s : Bytes) : Option Bytes :=
  if s.length < cap then some s else none

theorem terminated_eq_some_iff {cap : ℕ} {s t : Bytes} :
    terminated cap s = some t ↔ s.length < cap ∧ s = t := by
  simp [terminated]

end Tacppd
