/-
# The base64 texts of the daemon

`utl::base64Encode` and `utl::base64Decode`.  Both copy their argument into a buffer of 64
bytes and work on the C string in it, so that only what comes before a NUL is encoded, and
what is decoded is cut at the first NUL too.

For texts of up to 45 bytes without NUL the two are inverse (`base64Decode_encode`).
-/
import Tacppd.Bytes
import Tacppd.Lib.Sextet

namespace Tacppd

/-! ## Encoding -/

/-- `tbl`, filled up to index 63. -/
def base64Tbl (i : UInt8) : UInt8 :=
  if i < 26 then 65 + i
  else if i < 52 then 97 + (i - 26)
  else if i < 62 then 48 + (i - 52)
  else if i = 62 then 43
  else if i = 63 then 47
  else 0

/-- The sign `=` that stands for a byte that is missing. -/
def base64Pad : UInt8 := 61

/-- The loop of `base64Encode`, three bytes in each round. -/
def base64Groups : Bytes → Bytes
  | [] => []
  | [a] => [base64Tbl (Sextet.first a), base64Tbl (Sextet.second a 0), base64Pad, base64Pad]
  | [a, b] =>
    [base64Tbl (Sextet.first a), base64Tbl (Sextet.second a b), base64Tbl (Sextet.third b 0),
      base64Pad]
  | a :: b :: c :: s =>
    base64Tbl (Sextet.first a) :: base64Tbl (Sextet.second a b) ::
      base64Tbl (Sextet.third b c) :: base64Tbl (Sextet.fourth c) :: base64Groups s

/-- `utl::base64Encode`: the text is cut to 62 bytes, the result to 63. -/
def base64Encode (s : Bytes) : Bytes :=
  if (cstr s).length = 0 then [] else (base64Groups (snprintf 63 s)).take 63

/-! ## Decoding -/

/-- `dtable`. -/
def base64Dtable (c : UInt8) : UInt8 :=
  if 65 ≤ c ∧ c ≤ 90 then c - 65
  else if 97 ≤ c ∧ c ≤ 122 then 26 + (c - 97)
  else if 48 ≤ c ∧ c ≤ 57 then 52 + (c - 48)
  else if c = 43 then 62
  else if c = 47 then 63
  else if c = base64Pad then 0
  else 128

/-- The loop of `base64Decode` with the characters of a group that it has read, `a`, and
what it has written, `d`.  A character that is not in the table is skipped; one from 128 on
is a negative index.  The limits on `m` and `k` are out of reach in a buffer of 64 bytes. -/
def base64Loop : Bytes → Bytes → Bytes → Option Bytes
  | [], _, d => some (cstr d)
  | c :: s, a, d =>
    if 128 ≤ c then none
    else if base64Dtable c = 128 then base64Loop s a d
    else
      match a with
      | [a0, a1, a2] =>
        let o0 := Sextet.byte₁ (base64Dtable a0) (base64Dtable a1)
        let o1 := Sextet.byte₂ (base64Dtable a1) (base64Dtable a2)
        let o2 := Sextet.byte₃ (base64Dtable a2) (base64Dtable c)
        if a2 = base64Pad then some (cstr (d ++ [o0]))
        else if c = base64Pad then some (cstr (d ++ [o0, o1]))
        else base64Loop s [] (d ++ [o0, o1, o2])
      | a => base64Loop s (a ++ [c]) d

/-- `utl::base64Decode`. -/
def base64Decode (s : Bytes) : Option Bytes :=
  if (cstr s).length = 0 then some [] else base64Loop (snprintf 63 s) [] []

/-! ## The table -/

/-- A value below 64 is found again, under a character that is no pad and no NUL. -/
theorem base64Tbl_spec {x : UInt8} (hx : x.toNat < 64) :
    base64Dtable (base64Tbl x) = x ∧ base64Tbl x < 128 ∧ base64Tbl x ≠ base64Pad ∧
      base64Tbl x ≠ 0 := by
  have hall : ∀ n < 64, base64Dtable (base64Tbl (UInt8.ofNat n)) = UInt8.ofNat n ∧
      base64Tbl (UInt8.ofNat n) < 128 ∧ base64Tbl (UInt8.ofNat n) ≠ base64Pad ∧
      base64Tbl (UInt8.ofNat n) ≠ 0 := by
    decide +kernel
  rw [← UInt8.ofNat_toNat (x := x)]
  exact hall x.toNat hx

theorem base64Tbl_inj {x y : UInt8} (hx : x.toNat < 64) (hy : y.toNat < 64) :
    base64Tbl x = base64Tbl y ↔ x = y := by
  constructor
  · intro h
    rw [← (base64Tbl_spec hx).1, h, (base64Tbl_spec hy).1]
  · exact congrArg base64Tbl

section

attribute [local simp] base64Loop

/-- A character of the table, or the pad, is read and not skipped. -/
theorem base64Loop_read {c : UInt8} (hc : c < 128) (hd : base64Dtable c ≠ 128) (s a d : Bytes)
    (ha : a.length < 3) : base64Loop (c :: s) a d = base64Loop s (a ++ [c]) d := by
  have hc' : ¬ 128 ≤ c := UInt8.not_le.mpr hc
  match a, ha with
  | [], _ => simp [hc', hd]
  | [_], _ => simp [hc', hd]
  | [_, _], _ => simp [hc', hd]

end

theorem base64Dtable_ne {x : UInt8} (hx : x.toNat < 64) : base64Dtable (base64Tbl x) ≠ 128 := by
  rw [(base64Tbl_spec hx).1]
  intro h
  rw [h] at hx
  exact absurd hx (by decide)

/-! ## The round trip -/

/-- A whole group. -/
theorem base64Loop_group {x y z w : UInt8} (hx : x.toNat < 64) (hy : y.toNat < 64)
    (hz : z.toNat < 64) (hw : w.toNat < 64) (s d : Bytes) :
    base64Loop (base64Tbl x :: base64Tbl y :: base64Tbl z :: base64Tbl w :: s) [] d =
      base64Loop s [] (d ++ [Sextet.byte₁ x y, Sextet.byte₂ y z, Sextet.byte₃ z w]) := by
  have hsx := base64Tbl_spec hx
  have hsy := base64Tbl_spec hy
  have hsz := base64Tbl_spec hz
  have hsw := base64Tbl_spec hw
  rw [base64Loop_read hsx.2.1 (base64Dtable_ne hx) _ _ _ (by simp),
    base64Loop_read hsy.2.1 (base64Dtable_ne hy) _ _ _ (by simp),
    base64Loop_read hsz.2.1 (base64Dtable_ne hz) _ _ _ (by simp)]
  simp only [List.nil_append, List.cons_append]
  rw [base64Loop, if_neg (UInt8.not_le.mpr hsw.2.1), if_neg (base64Dtable_ne hw)]
  simp only [hsx.1, hsy.1, hsz.1, hsw.1, if_neg hsz.2.2.1, if_neg hsw.2.2.1]

/-- A group with two pads. -/
theorem base64Loop_one {x y : UInt8} (hx : x.toNat < 64) (hy : y.toNat < 64) (d : Bytes) :
    base64Loop [base64Tbl x, base64Tbl y, base64Pad, base64Pad] [] d =
      some (cstr (d ++ [Sextet.byte₁ x y])) := by
  have hsx := base64Tbl_spec hx
  have hsy := base64Tbl_spec hy
  rw [base64Loop_read hsx.2.1 (base64Dtable_ne hx) _ _ _ (by simp),
    base64Loop_read hsy.2.1 (base64Dtable_ne hy) _ _ _ (by simp),
    base64Loop_read (by decide) (by decide) _ _ _ (by simp)]
  simp only [List.nil_append, List.cons_append]
  rw [base64Loop, if_neg (by decide), if_neg (by decide)]
  simp only [hsx.1, hsy.1, if_pos]

/-- A group with one pad. -/
theorem base64Loop_two {x y z : UInt8} (hx : x.toNat < 64) (hy : y.toNat < 64)
    (hz : z.toNat < 64) (d : Bytes) :
    base64Loop [base64Tbl x, base64Tbl y, base64Tbl z, base64Pad] [] d =
      some (cstr (d ++ [Sextet.byte₁ x y, Sextet.byte₂ y z])) := by
  have hsx := base64Tbl_spec hx
  have hsy := base64Tbl_spec hy
  have hsz := base64Tbl_spec hz
  rw [base64Loop_read hsx.2.1 (base64Dtable_ne hx) _ _ _ (by simp),
    base64Loop_read hsy.2.1 (base64Dtable_ne hy) _ _ _ (by simp),
    base64Loop_read hsz.2.1 (base64Dtable_ne hz) _ _ _ (by simp)]
  simp only [List.nil_append, List.cons_append]
  rw [base64Loop, if_neg (by decide), if_neg (by decide)]
  simp only [hsx.1, hsy.1, hsz.1, if_neg hsz.2.2.1, if_pos]

/-- The loops are inverse, up to the first NUL. -/
theorem base64Loop_groups (s d : Bytes) :
    base64Loop (base64Groups s) [] d = some (cstr (d ++ s)) := by
  induction s using base64Groups.induct generalizing d with
  | case1 => simp [base64Groups, base64Loop]
  | case2 a =>
    rw [base64Groups, base64Loop_one (Sextet.first_lt a) (Sextet.second_lt a 0),
      Sextet.byte₁_groups]
  | case3 a b =>
    rw [base64Groups, base64Loop_two (Sextet.first_lt a) (Sextet.second_lt a b)
      (Sextet.third_lt b 0), Sextet.byte₁_groups, Sextet.byte₂_groups]
  | case4 a b c s ih =>
    rw [base64Groups, base64Loop_group (Sextet.first_lt a) (Sextet.second_lt a b)
      (Sextet.third_lt b c) (Sextet.fourth_lt c), Sextet.byte₁_groups, Sextet.byte₂_groups,
      Sextet.byte₃_groups, ih]
    simp

theorem length_base64Groups (s : Bytes) : (base64Groups s).length = 4 * ((s.length + 2) / 3) := by
  induction s using base64Groups.induct with
  | case1 => rfl
  | case2 a => simp [base64Groups]
  | case3 a b => simp [base64Groups]
  | case4 a b c s ih =>
    simp only [base64Groups, List.length_cons, ih]
    omega

/-- What holds of the pad and of the table holds of every character. -/
theorem base64Groups_forall {p : UInt8 → Prop} (hpad : p base64Pad)
    (htbl : ∀ x : UInt8, x.toNat < 64 → p (base64Tbl x)) (s : Bytes) :
    ∀ c ∈ base64Groups s, p c := by
  induction s using base64Groups.induct with
  | case1 => simp [base64Groups]
  | case2 a =>
    simp [base64Groups, hpad, htbl _ (Sextet.first_lt a), htbl _ (Sextet.second_lt a 0)]
  | case3 a b =>
    simp [base64Groups, hpad, htbl _ (Sextet.first_lt a), htbl _ (Sextet.second_lt a b),
      htbl _ (Sextet.third_lt b 0)]
  | case4 a b c s ih =>
    rw [base64Groups]
    simp only [List.forall_mem_cons]
    exact ⟨htbl _ (Sextet.first_lt a), htbl _ (Sextet.second_lt a b),
      htbl _ (Sextet.third_lt b c), htbl _ (Sextet.fourth_lt c), ih⟩

theorem zero_not_mem_base64Groups (s : Bytes) : (0 : UInt8) ∉ base64Groups s := fun h =>
  base64Groups_forall (p := (· ≠ 0)) (by decide) (fun _ hx => (base64Tbl_spec hx).2.2.2) s 0 h
    rfl

/-- No character of a base64 text is a quote, a backslash or a blank. -/
theorem base64Groups_plain (s : Bytes) :
    (39 : UInt8) ∉ base64Groups s ∧ (92 : UInt8) ∉ base64Groups s ∧
      (32 : UInt8) ∉ base64Groups s := by
  have htbl : ∀ x : UInt8, x.toNat < 64 →
      base64Tbl x ≠ 39 ∧ base64Tbl x ≠ 92 ∧ base64Tbl x ≠ 32 := by
    intro x hx
    have hall : ∀ n < 64, base64Tbl (UInt8.ofNat n) ≠ 39 ∧ base64Tbl (UInt8.ofNat n) ≠ 92 ∧
        base64Tbl (UInt8.ofNat n) ≠ 32 := by
      decide +kernel
    rw [← UInt8.ofNat_toNat (x := x)]
    exact hall x.toNat hx
  have hchar := base64Groups_forall (p := fun c => c ≠ 39 ∧ c ≠ 92 ∧ c ≠ 32) (by decide) htbl s
  exact ⟨fun h => (hchar _ h).1 rfl, fun h => (hchar _ h).2.1 rfl, fun h => (hchar _ h).2.2 rfl⟩

/-- A text that fits is encoded whole. -/
theorem base64Encode_eq {s : Bytes} (h0 : (0 : UInt8) ∉ s) (hlen : s.length ≤ 45) :
    base64Encode s = base64Groups s := by
  rw [base64Encode, cstr_eq_self h0, snprintf_eq_self h0 (by omega)]
  split
  · next hnil =>
    rw [List.length_eq_zero_iff] at hnil
    subst hnil
    rfl
  · apply List.take_of_length_le
    rw [length_base64Groups]
    omega

/-- **The round trip** of a text that fits. -/
theorem base64Decode_encode {s : Bytes} (h0 : (0 : UInt8) ∉ s) (hlen : s.length ≤ 45) :
    base64Decode (base64Encode s) = some s := by
  have h0' := zero_not_mem_base64Groups s
  have hlen' := length_base64Groups s
  rw [base64Encode_eq h0 hlen, base64Decode, cstr_eq_self h0',
    snprintf_eq_self h0' (by omega), base64Loop_groups, List.nil_append, cstr_eq_self h0]
  split
  · next hnil =>
    obtain rfl : s = [] := by
      rw [← List.length_eq_zero_iff]
      omega
    rfl
  · rfl

/-- A letter, a digit, one of the two signs, or the pad. -/
def Base64Char (c : UInt8) : Prop :=
  65 ≤ c ∧ c ≤ 90 ∨ 97 ≤ c ∧ c ≤ 122 ∨ 48 ≤ c ∧ c ≤ 57 ∨ c = 43 ∨ c = 47 ∨ c = base64Pad

instance (c : UInt8) : Decidable (Base64Char c) := inferInstanceAs (Decidable (_ ∨ _))

theorem base64Tbl_char {x : UInt8} (hx : x.toNat < 64) : Base64Char (base64Tbl x) := by
  have hall : ∀ n < 64, Base64Char (base64Tbl (UInt8.ofNat n)) := by decide +kernel
  rw [← UInt8.ofNat_toNat (x := x)]
  exact hall x.toNat hx

/-- **Encoded and decoded**: the text comes back, from four characters for every three bytes or
part of three. -/
theorem base64_roundtrip {s : Bytes} (h0 : (0 : UInt8) ∉ s) (hlen : s.length ≤ 45) :
    base64Decode (base64Encode s) = some s ∧
      (base64Encode s).length = 4 * ((s.length + 2) / 3) ∧
      ∀ c ∈ base64Encode s, Base64Char c := by
  refine ⟨base64Decode_encode h0 hlen, ?_, ?_⟩
  · rw [base64Encode_eq h0 hlen, length_base64Groups]
  · rw [base64Encode_eq h0 hlen]
    apply base64Groups_forall
    · simp [Base64Char]
    · intro x hx
      exact base64Tbl_char hx

/-- A byte above 127, and one byte behind a whole group. -/
theorem base64_roundtrip_four : base64Decode (base64Encode [255, 1, 128, 65]) =
    some [255, 1, 128, 65] ∧ (base64Encode [255, 1, 128, 65]).length = 8 := by
  have hround := @base64_roundtrip [255, 1, 128, 65] (by decide) (by decide)
  exact ⟨hround.1, hround.2.1⟩

end Tacppd
