/-
# Numbers in texts

`atoi` is `(int)strtol`: the number at the start of a text is cut to the bounds of a `long`, and
an `int` keeps the last 32 bits of what is left.  How wide a `long` is differs between machines,
so its width is a parameter of everything that reads a number (`LongWidth`).

A number that an `int` has room for is read as it has been written (`atoi_toString`).  An
`unsigned int` gets back those that it and a `long` have room for (`atoiUnsigned_toString_iff`).
-/
import Mathlib.Algebra.Order.Ring.Int
import Mathlib.Algebra.Order.Ring.Nat
import Tacppd.Bytes

namespace Tacppd

/-! ## Rows of digits -/

/-- `isspace`. -/
def isSpace (c : UInt8) : Bool := c == 32 || (decide (9 ≤ c) && decide (c ≤ 13))

/-- The digits at the start of a text, after a number read so far. -/
def readDigits (n : ℕ) : Bytes → ℕ
  | [] => n
  | c :: s => if 48 ≤ c ∧ c ≤ 57 then readDigits (10 * n + (c.toNat - 48)) s else n

/-- The number at the start of a text, with blanks and a sign in front. -/
def leadingNumber (s : Bytes) : ℤ :=
  match s.dropWhile isSpace with
  | [] => 0
  | c :: rest =>
    if c = 45 then -(readDigits 0 rest : ℤ)
    else if c = 43 then readDigits 0 rest
    else readDigits 0 (c :: rest)

/-- A digit as a byte. -/
theorem digit_toUInt8 {c : Char} (hc : c.isDigit = true) :
    48 ≤ c.toNat.toUInt8 ∧ c.toNat.toUInt8 ≤ 57 ∧ c.toNat.toUInt8.toNat = c.toNat := by
  have hnat : 48 ≤ c.toNat ∧ c.toNat ≤ 57 := by
    simpa [Char.isDigit, UInt32.le_iff_toNat_le] using hc
  have hsame : c.toNat.toUInt8.toNat = c.toNat := by
    rw [Nat.toUInt8_eq, UInt8.toNat_ofNat_of_lt' (by simp [UInt8.size]; omega)]
  refine ⟨?_, ?_, hsame⟩
  · rw [UInt8.le_iff_toNat_le, hsame]
    exact hnat.1
  · rw [UInt8.le_iff_toNat_le, hsame]
    exact hnat.2

/-- Digits are read as the number that they write. -/
theorem readDigits_digits {l : List Char} (hl : ∀ c ∈ l, c.isDigit = true) (n : ℕ) :
    readDigits n (l.map fun c => c.toNat.toUInt8) = Nat.ofDigitChars 10 l n := by
  induction l generalizing n with
  | nil => rw [Nat.ofDigitChars_nil]; rfl
  | cons c l ih =>
    rw [List.forall_mem_cons] at hl
    obtain ⟨hge, hle, hsame⟩ := digit_toUInt8 hl.1
    rw [List.map_cons, readDigits, if_pos ⟨hge, hle⟩, hsame, ih hl.2, Nat.ofDigitChars_cons]
    rfl

theorem readDigits_toString (n : ℕ) : readDigits 0 (str (toString n)) = n := by
  rw [str, Nat.toString_eq_ofList_toDigits, String.toList_ofList,
    readDigits_digits fun c hc => Nat.isDigit_of_mem_toDigits (by omega) (by omega) hc,
    Nat.ofDigitChars_ten_toDigits]

/-- So many bytes have so many digits at most. -/
theorem readDigits_lt {n k : ℕ} (h : n < 10 ^ k) (s : Bytes) :
    readDigits n s < 10 ^ (k + s.length) := by
  induction s generalizing n k with
  | nil => simpa [readDigits] using h
  | cons c s ih =>
    rw [readDigits]
    split
    · next hc =>
      have hdigit : c.toNat - 48 ≤ 9 := by
        have hle : c.toNat ≤ 57 := by simpa using UInt8.le_iff_toNat_le.mp hc.2
        omega
      have hnext : 10 * n + (c.toNat - 48) < 10 ^ (k + 1) := by
        rw [pow_succ]
        omega
      have hlt := ih hnext
      rwa [Nat.add_assoc, Nat.add_comm 1] at hlt
    · calc n < 10 ^ k := h
        _ ≤ 10 ^ (k + (c :: s).length) := Nat.pow_le_pow_right (by omega) (by omega)

/-- The text of a natural number has digits only. -/
theorem digit_of_mem_toString {n : ℕ} {c : UInt8} (hc : c ∈ str (toString n)) :
    48 ≤ c ∧ c ≤ 57 := by
  rw [str, Nat.toString_eq_ofList_toDigits, String.toList_ofList] at hc
  obtain ⟨d, hd, rfl⟩ := List.mem_map.mp hc
  obtain ⟨hge, hle, -⟩ :=
    digit_toUInt8 (Nat.isDigit_of_mem_toDigits (by omega) (by omega) hd)
  exact ⟨hge, hle⟩

theorem toString_ne_nil (n : ℕ) : str (toString n) ≠ [] := by
  rw [str, Nat.toString_eq_ofList_toDigits, String.toList_ofList, ne_eq, List.map_eq_nil_iff]
  exact Nat.toDigits_ne_nil

/-- A number of so many digits. -/
theorem length_toString_le {n k : ℕ} (hk : 0 < k) (hn : n < 10 ^ k) :
    (str (toString n)).length ≤ k := by
  rw [str, Nat.toString_eq_ofList_toDigits, String.toList_ofList, List.length_map]
  exact (Nat.length_toDigits_le_iff (by omega) hk).mpr hn

/-- A negative number has its sign in front. -/
theorem toString_negSucc (n : ℕ) :
    str (toString (Int.negSucc n)) = 45 :: str (toString (n + 1)) := by
  rw [show toString (Int.negSucc n) = "-" ++ toString (n + 1) from rfl, str, String.toList_append]
  rfl

/-- The text of a number has digits, and a sign where it is negative. -/
theorem byte_of_mem_toString {z : ℤ} {c : UInt8} (hc : c ∈ str (toString z)) :
    (48 ≤ c ∧ c ≤ 57) ∨ c = 45 := by
  cases z with
  | ofNat n => exact .inl (digit_of_mem_toString hc)
  | negSucc n =>
    rw [toString_negSucc] at hc
    rcases List.mem_cons.mp hc with rfl | hc
    · exact .inr rfl
    · exact .inl (digit_of_mem_toString hc)

theorem toString_int_ne_nil (z : ℤ) : str (toString z) ≠ [] := by
  cases z with
  | ofNat n => exact toString_ne_nil n
  | negSucc n =>
    rw [toString_negSucc]
    exact List.cons_ne_nil _ _

/-- A text that starts with a digit has no sign. -/
theorem leadingNumber_cons {c : UInt8} (hc : 48 ≤ c) (t : Bytes) :
    leadingNumber (c :: t) = readDigits 0 (c :: t) := by
  have hnat : 48 ≤ c.toNat := UInt8.le_iff_toNat_le.mp hc
  have habove : ∀ x : UInt8, x.toNat < 48 → c ≠ x ∧ ¬ c ≤ x := by
    intro x hx
    refine ⟨fun heq => ?_, fun hle => ?_⟩
    · rw [heq] at hnat
      omega
    · have hle' := UInt8.le_iff_toNat_le.mp hle
      omega
  have hblank := (habove 32 (by decide)).1
  have hline := (habove 13 (by decide)).2
  have hspace : isSpace c = false := by simp [isSpace, hblank, hline]
  rw [leadingNumber, List.dropWhile_cons_of_neg (by simp [hspace])]
  simp only [if_neg (habove 45 (by decide)).1, if_neg (habove 43 (by decide)).1]

theorem leadingNumber_of_digit {b : Bytes} (hb : ∀ c ∈ b, 48 ≤ c ∧ c ≤ 57) :
    leadingNumber b = readDigits 0 b := by
  cases b with
  | nil => rfl
  | cons c t => exact leadingNumber_cons (hb c List.mem_cons_self).1 t

theorem leadingNumber_toString (z : ℤ) : leadingNumber (str (toString z)) = z := by
  cases z with
  | ofNat n =>
    rw [show toString (Int.ofNat n) = toString n from rfl,
      leadingNumber_of_digit fun c hc => digit_of_mem_toString hc, readDigits_toString]
    rfl
  | negSucc n =>
    rw [toString_negSucc, leadingNumber, List.dropWhile_cons_of_neg (by decide)]
    simp only [if_true, readDigits_toString]
    omega

/-- A row of so many bytes has no number of more digits. -/
theorem leadingNumber_bounds (s : Bytes) :
    -10 ^ s.length < leadingNumber s ∧ leadingNumber s < 10 ^ s.length := by
  have hread : ∀ t : Bytes, t.length ≤ s.length → (readDigits 0 t : ℤ) < 10 ^ s.length := by
    intro t ht
    have hlt : readDigits 0 t < 10 ^ (0 + t.length) := readDigits_lt (by simp) t
    have hle : 10 ^ (0 + t.length) ≤ 10 ^ s.length := Nat.pow_le_pow_right (by omega) (by omega)
    exact_mod_cast hlt.trans_le hle
  have hdrop : (s.dropWhile isSpace).length ≤ s.length := (List.dropWhile_suffix _).length_le
  have hpos : (0 : ℤ) < 10 ^ s.length := pow_pos (by omega) _
  rw [leadingNumber]
  split
  · omega
  · next c rest heq =>
    rw [heq, List.length_cons] at hdrop
    have hrest := hread rest (by omega)
    have hall := hread (c :: rest) (by simpa using hdrop)
    split
    · omega
    · split <;> omega

/-! ## `strtol` and `atoi` -/

/-- How many bits a `long` has, which are 32 at least. -/
class LongWidth where
  bits : ℕ
  le_bits : 32 ≤ bits

/-- A machine with a `long` of 64 bits, on which the examples run. -/
instance lp64 : LongWidth := ⟨64, by omega⟩

/-- `strtol(s, NULL, 10)`, and `atol(s)`. -/
def strtol [LongWidth] (s : Bytes) : ℤ :=
  max (-2 ^ (LongWidth.bits - 1)) (min (leadingNumber s) (2 ^ (LongWidth.bits - 1) - 1))

/-- What an `int` of 32 bits keeps. -/
def toInt (n : ℤ) : ℤ := n.bmod 4294967296

/-- `atoi(s)`. -/
def atoi [LongWidth] (s : Bytes) : ℤ := toInt (strtol s)

/-- The result of `atoi` in an `unsigned int`. -/
def atoiUnsigned [LongWidth] (s : Bytes) : ℕ := (atoi s % 4294967296).toNat

/-- A number that both an `unsigned int` and a `long` have room for. -/
def UnsignedNumber [LongWidth] (n : ℕ) : Prop :=
  n < 4294967296 ∧ (n : ℤ) < 2 ^ (LongWidth.bits - 1)

/-- A number that an `int` can have. -/
def IntNumber (z : ℤ) : Prop := -2147483648 ≤ z ∧ z < 2147483648

theorem toInt_eq {n : ℤ} (hn : IntNumber n) : toInt n = n := by
  obtain ⟨hlow, hhigh⟩ := hn
  exact Int.bmod_eq_of_le (by omega) (by omega)

theorem toInt_natCast_eq {n : ℕ} (hn : n < 2147483648) : toInt n = n :=
  toInt_eq ⟨by omega, by omega⟩

theorem intNumber_toInt (n : ℤ) : IntNumber (toInt n) := by
  have hlow := Int.le_bmod (x := n) (m := 4294967296) (by omega)
  have hhigh := Int.bmod_lt (x := n) (m := 4294967296) (by omega)
  refine ⟨?_, ?_⟩
  · rw [toInt]
    omega
  · rw [toInt]
    omega

/-- The text of an `int` has a sign and ten digits at most. -/
theorem length_toString_intNumber {z : ℤ} (hz : IntNumber z) : (str (toString z)).length ≤ 11 := by
  obtain ⟨hlow, hhigh⟩ := hz
  cases z with
  | ofNat n =>
    have hn : (n : ℤ) < 2147483648 := hhigh
    have hlen : (str (toString n)).length ≤ 10 := length_toString_le (by omega) (by omega)
    exact Nat.le_succ_of_le hlen
  | negSucc n =>
    rw [toString_negSucc, List.length_cons, Nat.succ_le_succ_iff]
    exact length_toString_le (by omega) (by omega)

/-- Nine bytes make a number that an `int` has room for. -/
theorem intNumber_of_length_le {s : Bytes} (h : s.length ≤ 9) : IntNumber (leadingNumber s) := by
  obtain ⟨hlow, hhigh⟩ := leadingNumber_bounds s
  have hpow : (10 : ℤ) ^ s.length ≤ 10 ^ 9 := pow_le_pow_right₀ (by omega) h
  exact ⟨by omega, by omega⟩

section

variable [LongWidth] {s t : Bytes}

/-- A `long` has room for every `int`. -/
theorem two_pow_le_long : (2147483648 : ℤ) ≤ 2 ^ (LongWidth.bits - 1) := by
  have hbits := LongWidth.le_bits
  calc (2147483648 : ℤ) = 2 ^ 31 := by decide
    _ ≤ 2 ^ (LongWidth.bits - 1) := pow_le_pow_right₀ (by omega) (by omega)

/-- The results of `atoi` are those of an `int`. -/
theorem intNumber_atoi (s : Bytes) : IntNumber (atoi s) := intNumber_toInt _

/-- Texts with one number are read alike. -/
theorem atoi_congr (h : leadingNumber s = leadingNumber t) : atoi s = atoi t := by
  rw [atoi, strtol, h]
  rfl

theorem strtol_eq (hs : IntNumber (leadingNumber s)) : strtol s = leadingNumber s := by
  have hpow := two_pow_le_long
  have hlow := hs.1
  have hhigh := hs.2
  rw [strtol, min_eq_left (by omega), max_eq_right (by omega)]

theorem atoi_eq (hs : IntNumber (leadingNumber s)) : atoi s = leadingNumber s := by
  rw [atoi, strtol_eq hs, toInt_eq hs]

@[simp] theorem atoi_nil : atoi [] = 0 :=
  atoi_eq (s := []) ⟨by decide, by decide⟩

/-- The number is read as it is written exactly when an `int` has room for it. -/
theorem atoi_eq_iff : atoi s = leadingNumber s ↔ IntNumber (leadingNumber s) :=
  ⟨fun h => h ▸ intNumber_atoi s, atoi_eq⟩

/-- `atoi` reads the number that has been written. -/
theorem atoi_toString {z : ℤ} (hz : IntNumber z) : atoi (str (toString z)) = z := by
  have hnumber := leadingNumber_toString z
  rw [atoi_eq (hnumber.symm ▸ hz), hnumber]

/-- Nine digits are read as their number. -/
theorem atoi_of_digit {b : Bytes} (hb : ∀ c ∈ b, 48 ≤ c ∧ c ≤ 57) (hlen : b.length ≤ 9) :
    atoi b = readDigits 0 b := by
  rw [atoi_eq (intNumber_of_length_le hlen), leadingNumber_of_digit hb]

/-- **Which numbers an `unsigned int` gets back** from their texts. -/
theorem atoiUnsigned_toString_iff {n : ℕ} :
    atoiUnsigned (str (toString n)) = n ↔ UnsignedNumber n := by
  have hpow := two_pow_le_long
  have hnumber : leadingNumber (str (toString n)) = n := leadingNumber_toString (n : ℤ)
  have hmod : ∀ k : ℤ, (toInt k % 4294967296).toNat = (k % 4294967296).toNat := by
    intro k
    rw [toInt, show (4294967296 : ℤ) = ((4294967296 : ℕ) : ℤ) from rfl, Int.bmod_emod]
  rw [atoiUnsigned, atoi, hmod, strtol, hnumber, max_eq_right (by omega), UnsignedNumber]
  constructor
  · intro h
    by_cases hlong : (n : ℤ) < 2 ^ (LongWidth.bits - 1)
    · rw [min_eq_left (by omega)] at h
      exact ⟨by omega, hlong⟩
    · -- the greatest `long` is below the number
      rw [min_eq_right (by omega)] at h
      omega
  · rintro ⟨hint, hlong⟩
    rw [min_eq_left (by omega), Int.emod_eq_of_lt (by omega) (by omega), Int.toNat_natCast]

end

end Tacppd
