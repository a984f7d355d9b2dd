/-
# The check of an address, step by step

`utl::isIp` copies the text of an address to the four rows of `char s[4][4]`, up to a dot each,
and steps over the byte behind each part.  It does not look at the length of a part, nor at what
the byte behind it is: behind the last part of `10.0.0.1` it steps over the NUL, and what it reads
then is no more of the text.  With a dot there it goes on to its answer, whatever follows.

So it leaves the text at every address that is one, and takes some that are not
(`ipCheck_right_iff`).  That one byte aside, its answers are right for all parts that fit the rows,
but for those with an empty part (`isIp`, which the other modules use, is without that byte).
-/
import Tacppd.PoolAddr

namespace Tacppd

/-! ## The scan -/

/-- The inner loop: it copies to a row, of which `row` is written, up to a dot or the NUL, and
writes a NUL behind it.  Nothing when it writes behind the row; nothing inside when a byte is no
digit; else the row and the text from the dot on. -/
def ipPart : Bytes → Bytes → Option (Option (Bytes × Bytes))
  | row, [] => if row.length < 4 then some (some (row, [])) else none
  | row, c :: s =>
    if c = 46 then if row.length < 4 then some (some (row, c :: s)) else none
    else if isDigit c = false then some none
    else if row.length < 4 then ipPart (row ++ [c]) s else none

/-- The outer loop, with the rows that are written and the number of those that are not. -/
def ipScan : ℕ → List Bytes → Bytes → Option (Option (List Bytes))
  | 0, rows, _ => some (some rows)
  | turns + 1, rows, s =>
    if s = [] then some (some rows)
    else
      match ipPart [] s with
      | none => none
      | some none => some none
      -- `i++` steps over the NUL, and the condition of the loop reads the byte behind it
      | some (some (_, [])) => none
      | some (some (row, _ :: rest)) => ipScan turns (rows ++ [row]) rest

/-- The test of the four numbers. -/
def ipTest (d1 d2 d3 d4 : ℤ) : Bool :=
  decide (0 < d1 ∧ d1 ≤ 255) && decide (0 ≤ d2 ∧ d2 ≤ 255) && decide (0 ≤ d3 ∧ d3 ≤ 255) &&
    decide (0 < d4 ∧ d4 < 255)

/-- `utl::isIp`; nothing where it leaves its arrays or reads a row that is not written. -/
def ipCheck [LongWidth] (s : Bytes) : Option Bool :=
  let s := cstr s
  if s.length < 7 then some false
  else
    match ipScan 4 [] s with
    | none => none
    | some none => some false
    | some (some [r0, r1, r2, r3]) =>
      let d row := if row = [] then 0 else atoi row
      some (ipTest (d r0) (d r1) (d r2) (d r3))
    | some (some _) => none

/-! ## Addresses -/

/-- A part of an address that fits a row. -/
structure IpPart where
  text : Bytes
  digit : ∀ c ∈ text, isDigit c = true
  len : text.length ≤ 3

def IpPart.value (p : IpPart) : ℕ := readDigits 0 p.text

/-- Parts with a dot behind each. -/
def dotted (parts : List IpPart) : Bytes := parts.flatMap fun p => p.text ++ [46]

/-- Four parts with a dot between two. -/
def fourParts (a b c d : IpPart) : Bytes := dotted [a, b, c] ++ d.text

/-- The numbers that are asked for. -/
def IpRange (a b c d : IpPart) : Prop :=
  (0 < a.value ∧ a.value ≤ 255) ∧ b.value ≤ 255 ∧ c.value ≤ 255 ∧ 0 < d.value ∧ d.value < 255

instance (a b c d : IpPart) : Decidable (IpRange a b c d) := by
  unfold IpRange
  infer_instance

/-- Four numbers in these bounds, with one to three digits, and nothing behind them. -/
def IsAddress (s : Bytes) : Prop :=
  ∃ a b c d : IpPart, s = fourParts a b c d ∧ (∀ p ∈ [a, b, c, d], p.text ≠ []) ∧ IpRange a b c d

/-- A byte that is no digit stands in one of the first four parts, and the parts and the digits in
front of it have room. -/
def StopsInside (s : Bytes) : Prop :=
  ∃ (parts : List IpPart) (ds : Bytes) (c : UInt8) (rest : Bytes),
    parts.length < 4 ∧ (∀ x ∈ ds, isDigit x = true) ∧ ds.length ≤ 4 ∧ isDigit c = false ∧ c ≠ 46 ∧
      s = dotted parts ++ (ds ++ c :: rest)

/-- Behind four parts that have room there is one dot more, and the numbers are out of their
bounds. -/
def RefusedInside (s : Bytes) : Prop :=
  ∃ (a b c d : IpPart) (rest : Bytes), s = dotted [a, b, c, d] ++ rest ∧ ¬ IpRange a b c d

variable {s ds rest row : Bytes} {c : UInt8} {rows : List Bytes} {turns : ℕ}

/-- A text is digits, and nothing, a dot or another byte behind them. -/
theorem digits_cases (s : Bytes) : ∃ ds : Bytes, (∀ c ∈ ds, isDigit c = true) ∧
    (s = ds ∨ (∃ rest, s = ds ++ 46 :: rest) ∨
      ∃ c rest, isDigit c = false ∧ c ≠ 46 ∧ s = ds ++ c :: rest) := by
  induction s with
  | nil => exact ⟨[], by simp, .inl rfl⟩
  | cons c s ih =>
    cases hc : isDigit c with
    | false =>
      refine ⟨[], by simp, .inr ?_⟩
      by_cases hdot : c = 46
      · exact .inl ⟨s, by rw [hdot]; rfl⟩
      · exact .inr ⟨c, s, hc, hdot, rfl⟩
    | true =>
      obtain ⟨ds, hds, hs⟩ := ih
      refine ⟨c :: ds, List.forall_mem_cons.mpr ⟨hc, hds⟩, ?_⟩
      rcases hs with rfl | ⟨rest, rfl⟩ | ⟨x, rest, hx, hdot, rfl⟩
      · exact .inl rfl
      · exact .inr (.inl ⟨rest, rfl⟩)
      · exact .inr (.inr ⟨x, rest, hx, hdot, rfl⟩)

theorem ne_dot_of_isDigit (hc : isDigit c = true) : c ≠ 46 := by
  rintro rfl
  exact absurd hc (by decide)

theorem dot_not_mem (hds : ∀ c ∈ ds, isDigit c = true) : (46 : UInt8) ∉ ds :=
  fun hmem => ne_dot_of_isDigit (hds 46 hmem) rfl

/-! ## One part -/

/-- The inner loop over digits. -/
theorem ipPart_digits (hds : ∀ c ∈ ds, isDigit c = true) (hrow : row.length ≤ 4) (s : Bytes) :
    ipPart row (ds ++ s) =
      if row.length + ds.length ≤ 4 then ipPart (row ++ ds) s else none := by
  induction ds generalizing row with
  | nil => simp [hrow]
  | cons c ds ih =>
    obtain ⟨hc, hds⟩ := List.forall_mem_cons.mp hds
    rw [List.cons_append, ipPart, if_neg (ne_dot_of_isDigit hc), if_neg (by simp [hc])]
    by_cases hroom : row.length < 4
    · rw [if_pos hroom, ih hds (by simp; omega), List.append_assoc, List.singleton_append,
        List.length_append, List.length_singleton, List.length_cons, Nat.add_right_comm,
        Nat.add_assoc row.length]
    · rw [if_neg hroom, if_neg (by rw [List.length_cons]; omega)]

theorem ipScan_dot (hds : ∀ c ∈ ds, isDigit c = true) (turns : ℕ) (rows : List Bytes)
    (rest : Bytes) : ipScan (turns + 1) rows (ds ++ 46 :: rest) =
      if ds.length ≤ 3 then ipScan turns (rows ++ [ds]) rest else none := by
  rw [ipScan, if_neg (by simp), ipPart_digits hds (by simp), List.nil_append]
  simp only [List.length_nil, Nat.zero_add]
  by_cases hroom : ds.length ≤ 3
  · rw [if_pos (by omega), if_pos hroom, ipPart, if_pos rfl, if_pos (by omega)]
  · rw [if_neg hroom]
    by_cases hfour : ds.length ≤ 4
    · rw [if_pos hfour, ipPart, if_pos rfl, if_neg (by omega)]
    · rw [if_neg hfour]

/-- At the end of the text the scan leaves the row, or the text. -/
theorem ipScan_end (hds : ∀ c ∈ ds, isDigit c = true) (hne : ds ≠ []) (turns : ℕ)
    (rows : List Bytes) : ipScan (turns + 1) rows ds = none := by
  have hpart := ipPart_digits hds (show ([] : Bytes).length ≤ 4 by simp) []
  rw [List.append_nil, List.nil_append] at hpart
  rw [ipScan, if_neg hne, hpart, ipPart]
  by_cases hfour : ([] : Bytes).length + ds.length ≤ 4
  · rw [if_pos hfour]
    by_cases hroom : ds.length < 4
    · rw [if_pos hroom]
    · rw [if_neg hroom]
  · rw [if_neg hfour]

theorem ipScan_stop (hds : ∀ c ∈ ds, isDigit c = true) (hc : isDigit c = false) (hdot : c ≠ 46)
    (turns : ℕ) (rows : List Bytes) (rest : Bytes) :
    ipScan (turns + 1) rows (ds ++ c :: rest) = if ds.length ≤ 4 then some none else none := by
  rw [ipScan, if_neg (by simp), ipPart_digits hds (by simp), List.nil_append, ipPart, if_neg hdot,
    if_pos hc]
  by_cases hfour : ds.length ≤ 4
  · simp [hfour]
  · simp [hfour]

/-! ## All parts -/

theorem dotted_cons (p : IpPart) (parts : List IpPart) :
    dotted (p :: parts) = p.text ++ 46 :: dotted parts := by
  simp [dotted]

/-- **The scan stops at a byte that is no digit.** -/
theorem ipScan_eq_stop_iff : ipScan turns rows s = some none ↔
    ∃ (parts : List IpPart) (ds : Bytes) (c : UInt8) (rest : Bytes),
      parts.length < turns ∧ (∀ x ∈ ds, isDigit x = true) ∧ ds.length ≤ 4 ∧ isDigit c = false ∧
        c ≠ 46 ∧ s = dotted parts ++ (ds ++ c :: rest) := by
  constructor
  · intro h
    induction turns generalizing rows s with
    | zero => simp [ipScan] at h
    | succ turns ih =>
      obtain ⟨ds, hds, rfl | ⟨rest, rfl⟩ | ⟨c, rest, hc, hdot, rfl⟩⟩ := digits_cases s
      · by_cases hne : s = []
        · rw [hne, ipScan, if_pos rfl] at h
          exact nomatch h
        · rw [ipScan_end hds hne] at h
          exact nomatch h
      · rw [ipScan_dot hds] at h
        split at h
        · next hlen =>
          obtain ⟨parts, es, c, more, hparts, hes, hlen', hc, hdot, rfl⟩ := ih h
          refine ⟨⟨ds, hds, hlen⟩ :: parts, es, c, more, Nat.succ_lt_succ hparts, hes, hlen', hc,
            hdot, ?_⟩
          rw [dotted_cons, List.append_assoc, List.cons_append]
        · exact nomatch h
      · rw [ipScan_stop hds hc hdot] at h
        split at h
        · next hlen => exact ⟨[], ds, c, rest, by simp, hds, hlen, hc, hdot, rfl⟩
        · exact nomatch h
  · rintro ⟨parts, ds, c, rest, hparts, hds, hlen, hc, hdot, rfl⟩
    induction parts generalizing turns rows with
    | nil =>
      obtain ⟨turns, rfl⟩ : ∃ n, turns = n + 1 := ⟨turns - 1, by simp at hparts; omega⟩
      rw [dotted, List.flatMap_nil, List.nil_append, ipScan_stop hds hc hdot, if_pos hlen]
    | cons p parts ih =>
      rw [List.length_cons] at hparts
      obtain ⟨turns, rfl⟩ : ∃ n, turns = n + 1 := ⟨turns - 1, by omega⟩
      rw [dotted_cons, List.append_assoc, List.cons_append, ipScan_dot p.digit, if_pos p.len]
      exact ih (by omega)

/-- **The scan fills its rows**, or ends behind a dot before. -/
theorem ipScan_eq_rows_iff {out : List Bytes} : ipScan turns rows s = some (some out) ↔
    ∃ (parts : List IpPart) (rest : Bytes), (parts.length = turns ∨ parts.length < turns ∧
      rest = []) ∧ s = dotted parts ++ rest ∧ out = rows ++ parts.map IpPart.text := by
  constructor
  · intro h
    induction turns generalizing rows s with
    | zero =>
      rw [ipScan, Option.some.injEq, Option.some.injEq] at h
      exact ⟨[], s, .inl rfl, rfl, by simp [h]⟩
    | succ turns ih =>
      obtain ⟨ds, hds, rfl | ⟨rest, rfl⟩ | ⟨c, rest, hc, hdot, rfl⟩⟩ := digits_cases s
      · by_cases hne : s = []
        · rw [hne, ipScan, if_pos rfl, Option.some.injEq, Option.some.injEq] at h
          exact ⟨[], [], .inr ⟨by simp, rfl⟩, by rw [hne]; rfl, by simp [h]⟩
        · rw [ipScan_end hds hne] at h
          exact nomatch h
      · rw [ipScan_dot hds] at h
        split at h
        · next hlen =>
          obtain ⟨parts, more, hparts, rfl, rfl⟩ := ih h
          refine ⟨⟨ds, hds, hlen⟩ :: parts, more, ?_, ?_, by simp⟩
          · simpa using hparts
          · rw [dotted_cons, List.append_assoc, List.cons_append]
        · exact nomatch h
      · rw [ipScan_stop hds hc hdot] at h
        split at h <;> exact nomatch h
  · rintro ⟨parts, rest, hparts, rfl, rfl⟩
    induction parts generalizing turns rows with
    | nil =>
      cases turns with
      | zero => simp [ipScan]
      | succ turns =>
        obtain ⟨-, rfl⟩ := hparts.resolve_left (by simp)
        simp [ipScan, dotted]
    | cons p parts ih =>
      rw [List.length_cons] at hparts
      obtain ⟨turns, rfl⟩ : ∃ n, turns = n + 1 := ⟨turns - 1, by omega⟩
      rw [dotted_cons, List.append_assoc, List.cons_append, ipScan_dot p.digit, if_pos p.len,
        ih (by simpa using hparts)]
      simp

/-! ## The answer -/

/-- A part is a number, and 0 when it is empty. -/
theorem IpPart.atoi_text [LongWidth] (p : IpPart) : atoi p.text = p.value := by
  have hlen := p.len
  exact atoi_of_digit (fun c hc => by simpa [isDigit] using p.digit c hc) (by omega)

theorem ipRange_iff [LongWidth] (a b c d : IpPart) :
    ipTest (atoi a.text) (atoi b.text) (atoi c.text) (atoi d.text) =
      decide (IpRange a b c d) := by
  rw [Bool.eq_iff_iff, ipTest]
  simp only [IpPart.atoi_text, Bool.and_eq_true, decide_eq_true_eq]
  unfold IpRange
  constructor
  · rintro ⟨⟨⟨ha, hb⟩, hc⟩, hd⟩
    omega
  · rintro ⟨ha, hb, hc, hd⟩
    omega

theorem ipCheck_eq [LongWidth] (h7 : ¬ (cstr s).length < 7) : ipCheck s =
    match ipScan 4 [] (cstr s) with
    | none => none
    | some none => some false
    | some (some [r0, r1, r2, r3]) => some (ipTest (atoi r0) (atoi r1) (atoi r2) (atoi r3))
    | some (some _) => none := by
  have hd : ∀ row : Bytes, (if row = [] then 0 else atoi row) = atoi row := by
    intro row
    split
    · next hnil => rw [hnil, atoi_nil]
    · rfl
  rw [ipCheck]
  simp only [if_neg h7, hd]

/-- The answer at a byte that is no digit. -/
theorem ipCheck_stop [LongWidth] (h7 : ¬ (cstr s).length < 7) (h : StopsInside (cstr s)) :
    ipCheck s = some false := by
  rw [ipCheck_eq h7, ipScan_eq_stop_iff.mpr h]

/-- The answer where a dot stands behind four parts. -/
theorem ipCheck_four [LongWidth] {a b c d : IpPart} (h7 : ¬ (cstr s).length < 7)
    (h : cstr s = dotted [a, b, c, d] ++ rest) : ipCheck s = some (decide (IpRange a b c d)) := by
  have hscan : ipScan 4 [] (cstr s) = some (some [a.text, b.text, c.text, d.text]) :=
    ipScan_eq_rows_iff.mpr ⟨[a, b, c, d], rest, .inl rfl, h, rfl⟩
  rw [ipCheck_eq h7, hscan]
  exact congrArg some (ipRange_iff a b c d)

/-- **All texts with an answer.** -/
theorem ipCheck_cases [LongWidth] {v : Bool} (h : ipCheck s = some v) :
    (cstr s).length < 7 ∧ v = false ∨ StopsInside (cstr s) ∧ v = false ∨
      ∃ (a b c d : IpPart) (rest : Bytes), cstr s = dotted [a, b, c, d] ++ rest ∧
        v = decide (IpRange a b c d) := by
  by_cases h7 : (cstr s).length < 7
  · rw [ipCheck] at h
    simp only [if_pos h7, Option.some.injEq] at h
    exact .inl ⟨h7, h.symm⟩
  · have hv := h
    rw [ipCheck_eq h7] at h
    split at h
    · exact nomatch h
    · next hscan => exact .inr (.inl ⟨ipScan_eq_stop_iff.mp hscan, (Option.some.inj h).symm⟩)
    · next hscan =>
      obtain ⟨parts, rest, -, hs, hout⟩ := ipScan_eq_rows_iff.mp hscan
      rw [List.nil_append] at hout
      obtain ⟨a, b, c, d, rfl⟩ : ∃ a b c d, parts = [a, b, c, d] := by
        apply List.length_eq_four.mp
        rw [← List.length_map IpPart.text, ← hout]
        rfl
      refine .inr (.inr ⟨a, b, c, d, rest, hs, ?_⟩)
      rw [ipCheck_four h7 hs] at hv
      exact (Option.some.inj hv).symm
    · exact nomatch h

/-! ## The function without the byte behind the text -/

theorem isIpRows_dot (hds : ∀ c ∈ ds, isDigit c = true) (j : ℕ) (rest : Bytes) :
    isIpRows (j + 1) (ds ++ 46 :: rest) =
      if ds.length ≤ 3 then (isIpRows j rest).map fun rows => rows.map (ds :: ·) else none := by
  have hpart : (ds ++ 46 :: rest).takeWhile (· ≠ 46) = ds := takeWhile_until (dot_not_mem hds)
  have hdigits : ds.takeWhile isDigit = ds := List.takeWhile_eq_self_iff.mpr hds
  rw [isIpRows, if_neg (by simp)]
  simp only [hpart, hdigits, if_neg (Nat.lt_irrefl _)]
  by_cases hlen : ds.length ≤ 3
  · have hdrop : (ds ++ 46 :: rest).drop (ds.length + 1) = rest := List.drop_length_add_append 1
    rw [if_neg (by omega), if_neg (by omega), if_pos hlen, hdrop]
  · rw [if_neg hlen]
    split
    · rfl
    · rw [if_pos (by omega)]

/-- The last part, with no dot behind it. -/
theorem isIpRows_last (hds : ∀ c ∈ ds, isDigit c = true) (hne : ds ≠ []) (hlen : ds.length ≤ 3) :
    isIpRows 1 ds = some (some [ds]) := by
  have hpart : ds.takeWhile (· ≠ 46) = ds :=
    List.takeWhile_eq_self_iff.mpr (forall_ne (dot_not_mem hds))
  have hdigits : ds.takeWhile isDigit = ds := List.takeWhile_eq_self_iff.mpr hds
  rw [isIpRows, if_neg hne]
  simp only [hpart, hdigits, if_neg (Nat.lt_irrefl _)]
  rw [if_neg (by omega), if_neg (by omega), isIpRows]
  rfl

theorem isIpRows_stop (hds : ∀ c ∈ ds, isDigit c = true) (hlen : ds.length ≤ 4)
    (hc : isDigit c = false) (hdot : c ≠ 46) (j : ℕ) (rest : Bytes) :
    isIpRows (j + 1) (ds ++ c :: rest) = some none := by
  have hpart : (ds ++ c :: rest).takeWhile (· ≠ 46) = ds ++ c :: rest.takeWhile (· ≠ 46) := by
    rw [List.takeWhile_append_of_pos (forall_ne (dot_not_mem hds)),
      List.takeWhile_cons_of_pos (by simpa using hdot)]
  have hdigits : (ds ++ c :: rest.takeWhile (· ≠ 46)).takeWhile isDigit = ds := by
    rw [List.takeWhile_append_of_pos hds, List.takeWhile_cons_of_neg (by simp [hc]),
      List.append_nil]
  rw [isIpRows, if_neg (by simp)]
  simp only [hpart, hdigits]
  rw [if_neg (by omega), if_pos (by simp)]

/-- The rows of parts that fit, and what comes behind them. -/
theorem isIpRows_dotted (parts : List IpPart) (j : ℕ) (rest : Bytes) :
    isIpRows (parts.length + j) (dotted parts ++ rest) =
      (isIpRows j rest).map fun rows => rows.map (parts.map IpPart.text ++ ·) := by
  induction parts with
  | nil =>
    have hnil : dotted [] ++ rest = rest := rfl
    rw [List.length_nil, Nat.zero_add, hnil]
    cases isIpRows j rest with
    | none => rfl
    | some rows => cases rows <;> rfl
  | cons p parts ih =>
    rw [List.length_cons, Nat.add_right_comm, dotted_cons, List.append_assoc, List.cons_append,
      isIpRows_dot p.digit, if_pos p.len, ih]
    cases isIpRows j rest with
    | none => rfl
    | some rows => cases rows <;> rfl

theorem isIp_rows [LongWidth] {a b c d : IpPart} (h7 : ¬ s.length < 7)
    (h : isIpRows 4 s = some (some [a.text, b.text, c.text, d.text])) :
    isIp s = some (decide (IpRange a b c d)) := by
  rw [isIp, if_neg h7, h]
  exact congrArg some (ipRange_iff a b c d)

/-- **Where the scan stays inside, `isIp` has its answer.** -/
theorem isIp_of_ipCheck [LongWidth] {v : Bool} (h : ipCheck s = some v) :
    isIp (cstr s) = some v := by
  by_cases h7 : (cstr s).length < 7
  · rw [ipCheck] at h
    simp only [if_pos h7] at h
    rw [isIp, if_pos h7, h]
  · rcases ipCheck_cases h with ⟨hlt, -⟩ | ⟨hstop, rfl⟩ | ⟨a, b, c, d, rest, hs, rfl⟩
    · exact absurd hlt h7
    · obtain ⟨parts, ds, c, rest, hparts, hds, hlen, hc, hdot, hs⟩ := hstop
      obtain ⟨j, hj⟩ : ∃ j, 4 = parts.length + (j + 1) := ⟨4 - parts.length - 1, by omega⟩
      rw [isIp, if_neg h7, hs, hj, isIpRows_dotted, isIpRows_stop hds hlen hc hdot]
      rfl
    · apply isIp_rows h7
      rw [hs]
      exact isIpRows_dotted [a, b, c, d] 0 rest

/-- **`isIp` at an address.** -/
theorem isIp_of_isAddress [LongWidth] (h : IsAddress s) (h7 : ¬ s.length < 7) :
    isIp s = some true := by
  obtain ⟨a, b, c, d, rfl, hne, hrange⟩ := h
  rw [← decide_eq_true hrange]
  apply isIp_rows h7
  have hlast := isIpRows_last d.digit (hne d (by simp)) d.len
  have hrows := isIpRows_dotted [a, b, c] 1 d.text
  rw [hlast] at hrows
  exact hrows

/-! ## At an address -/

theorem IsAddress.length_le (h : IsAddress s) : 7 ≤ s.length := by
  obtain ⟨a, b, c, d, rfl, hne, -⟩ := h
  have hpos : ∀ p ∈ [a, b, c, d], 0 < p.text.length := fun p hp =>
    List.length_pos_iff.mpr (hne p hp)
  simp only [List.forall_mem_cons] at hpos
  simp only [fourParts, dotted, List.flatMap_cons, List.flatMap_nil, List.length_append,
    List.length_singleton, List.length_nil]
  omega

theorem count_dotted (parts : List IpPart) : (dotted parts).count 46 = parts.length := by
  induction parts with
  | nil => rfl
  | cons p parts ih =>
    have hp : p.text.count 46 = 0 := List.count_eq_zero.mpr (dot_not_mem p.digit)
    rw [dotted_cons, List.count_append, List.count_cons_self, hp, ih, List.length_cons,
      Nat.zero_add]

/-- There are three dots in an address. -/
theorem IsAddress.count_dot (h : IsAddress s) : s.count 46 = 3 := by
  obtain ⟨a, b, c, d, rfl, -, -⟩ := h
  have hd : d.text.count 46 = 0 := List.count_eq_zero.mpr (dot_not_mem d.digit)
  rw [fourParts, List.count_append, count_dotted, hd]
  rfl

theorem mem_dotted {parts : List IpPart} {x : UInt8} (hx : x ∈ dotted parts) :
    isDigit x = true ∨ x = 46 := by
  obtain ⟨p, -, hp⟩ := List.mem_flatMap.mp hx
  rcases List.mem_append.mp hp with hp | hp
  · exact .inl (p.digit x hp)
  · exact .inr (List.mem_singleton.mp hp)

theorem IsAddress.digit_or_dot (h : IsAddress s) {x : UInt8} (hx : x ∈ s) :
    isDigit x = true ∨ x = 46 := by
  obtain ⟨a, b, c, d, rfl, -, -⟩ := h
  rcases List.mem_append.mp hx with hx | hx
  · exact mem_dotted hx
  · exact .inl (d.digit x hx)

/-- **No address gets an answer from the scan.** -/
theorem ipCheck_of_isAddress [LongWidth] (h : IsAddress (cstr s)) : ipCheck s = none := by
  cases hcheck : ipCheck s with
  | none => rfl
  | some v =>
    rcases ipCheck_cases hcheck with ⟨h7, -⟩ | ⟨hstop, -⟩ | ⟨a, b, c, d, rest, hs, -⟩
    · exact absurd h.length_le (by omega)
    · obtain ⟨parts, ds, c, rest, -, -, -, hc, hdot, hs⟩ := hstop
      rcases h.digit_or_dot (hs ▸ by simp : c ∈ cstr s) with hdigit | heq
      · rw [hc] at hdigit
        exact absurd hdigit Bool.false_ne_true
      · exact absurd heq hdot
    · have hcount := h.count_dot
      rw [hs, List.count_append, count_dotted] at hcount
      simp only [List.length_cons, List.length_nil] at hcount
      omega

/-- `isIp` has an answer, which says whether the text is an address. -/
def IpRight [LongWidth] (s : Bytes) : Prop :=
  ∃ v, ipCheck s = some v ∧ (v = true ↔ IsAddress (cstr s))

/-- **Where `isIp` is right and stays inside its arrays and the text**: at a text of less than
seven bytes, at one with a byte that is no digit in the first four parts, and at one that goes on
behind four parts with numbers out of their bounds; so at no address. -/
theorem ipCheck_right_iff [LongWidth] (s : Bytes) :
    (IpRight s ↔ (cstr s).length < 7 ∨ StopsInside (cstr s) ∨ RefusedInside (cstr s)) ∧
      (IsAddress (cstr s) → ¬ IpRight s ∧ isIp (cstr s) = some true) := by
  constructor
  · constructor
    · rintro ⟨v, hcheck, hv⟩
      rcases ipCheck_cases hcheck with ⟨h7, -⟩ | ⟨hstop, -⟩ | ⟨a, b, c, d, rest, hs, rfl⟩
      · exact .inl h7
      · exact .inr (.inl hstop)
      · -- an address would not have an answer
        refine .inr (.inr ⟨a, b, c, d, rest, hs, fun hrange => ?_⟩)
        have hnone := ipCheck_of_isAddress (hv.mp (decide_eq_true hrange))
        rw [hcheck] at hnone
        exact nomatch hnone
    · intro h
      have hcheck : ipCheck s = some false := by
        by_cases h7 : (cstr s).length < 7
        · rw [ipCheck]
          exact if_pos h7
        · rcases h with hlt | hstop | ⟨a, b, c, d, rest, hs, hrange⟩
          · exact absurd hlt h7
          · exact ipCheck_stop h7 hstop
          · rw [ipCheck_four h7 hs, decide_eq_false hrange]
      refine ⟨false, hcheck, iff_of_false Bool.false_ne_true fun haddr => ?_⟩
      rw [ipCheck_of_isAddress haddr] at hcheck
      exact nomatch hcheck
  · intro haddr
    refine ⟨?_, isIp_of_isAddress haddr (Nat.not_lt.mpr haddr.length_le)⟩
    rintro ⟨v, hcheck, -⟩
    rw [ipCheck_of_isAddress haddr] at hcheck
    exact nomatch hcheck

/-- `10.0.0.1`. -/
theorem isAddress_ten : IsAddress (str "10.0.0.1") :=
  ⟨⟨str "10", by simp [str, isDigit], by simp [str]⟩, ⟨str "0", by simp [str, isDigit],
    by simp [str]⟩, ⟨str "0", by simp [str, isDigit], by simp [str]⟩,
    ⟨str "1", by simp [str, isDigit], by simp [str]⟩, by decide +kernel, by simp [str],
    by decide +kernel⟩

theorem ipCheck_ten : isIp (str "10.0.0.1") = some true ∧ ¬ IpRight (str "10.0.0.1") := by
  have hcstr : cstr (str "10.0.0.1") = str "10.0.0.1" := by decide +kernel
  obtain ⟨-, haddr⟩ := ipCheck_right_iff (str "10.0.0.1")
  rw [hcstr] at haddr
  exact (haddr isAddress_ten).symm

/-- An address, one with a part more, and a part that is too long. -/
theorem ipCheck_wrong : ¬ IpRight (str "10.0.0.1") ∧
    ¬ IpRight (str "1.2.3.4.5") ∧ ipCheck (str "1.2.3.4.5") = some true ∧
    ¬ IpRight (str "12345.1.1.1") := by
  have hnone : ipCheck (str "10.0.0.1") = none ∧ ipCheck (str "12345.1.1.1") = none := by
    decide +kernel
  have htrue : ipCheck (str "1.2.3.4.5") = some true := by decide +kernel
  refine ⟨?_, ?_, htrue, ?_⟩
  · rintro ⟨v, hcheck, -⟩
    rw [hnone.1] at hcheck
    exact nomatch hcheck
  · rintro ⟨v, hcheck, hv⟩
    rw [htrue, Option.some.injEq] at hcheck
    have hdots := (hv.mp hcheck.symm).count_dot
    exact absurd hdots (by decide +kernel)
  · rintro ⟨v, hcheck, -⟩
    rw [hnone.2] at hcheck
    exact nomatch hcheck

end Tacppd
