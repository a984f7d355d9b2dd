/-
# The text of a parameter's mask

In the file of the commands a parameter stands as a text such as `{int:0-65535}` or `{str:2-30}`,
and `utl::isCorrespondW` reads this text anew for every word that is checked.  `ParamMask` of
`Command.lean` is what it reads in the usual masks.

The loop over the digits takes the empty word too, and `atoi` makes a number of it, as it makes
one of a row of digits that no `int` has room for.  These are the only words that are misjudged,
but for those of 2 ^ 31 bytes and more (`isCorrespondDesc_iff`).
-/
import Tacppd.ConfSection

namespace Tacppd

/-! ## The function -/

/-- `strncasecmp(a, b, n) == 0`. -/
def ncaseEq (n : ℕ) (a b : Bytes) : Bool := (a.take n).map toLower == (b.take n).map toLower

/-- The alternatives of a choice, each with all that stands behind it. -/
def alternatives : Bytes → List Bytes
  | [] => [[]]
  | c :: t =>
    match alternatives t with
    | [] => []
    | first :: more => if c = 124 then (c :: t) :: first :: more else (c :: t) :: more

/-- The loop up to the end of the lower limit: how many bytes it steps over.  The blank is looked
for in the second text, which begins elsewhere when there were blanks in front; nothing when that
is behind the array. -/
def lowerEnd : Bytes → Bytes → Option ℕ
  | [], _ => some 0
  | c :: u, v =>
    if c = 45 then some 0
    else
      match v with
      | [] => none
      | x :: v => if x = 32 then some 0 else (lowerEnd u v).map (· + 1)

/-- The loop between the limits. -/
def upperStart : Bytes → Bytes → Option ℕ
  | [], _ => some 0
  | c :: u, v =>
    if c = 45 then (upperStart u v.tail).map (· + 1)
    else
      match v with
      | [] => none
      | x :: v => if x = 32 then (upperStart u v).map (· + 1) else some 0

/-- The limits in `tPar`; without an upper one the mask is `open`. -/
def paramLimits [LongWidth] (tPar : Bytes) : Option (ℤ × Option ℤ) := do
  let delimetr := (tPar.takeWhile (· = 32)).length
  let tmp := tPar.drop delimetr
  -- the index is that of `tPar`, and `tmp[delimetr]` is what it is used for
  let n ← lowerEnd tmp ((tPar ++ [0]).drop (delimetr + delimetr))
  let min := atoi (tmp.take n)
  let next := delimetr + n + 1
  if tPar.length ≤ next then some (min, none)
  else
    let m ← upperStart (tPar.drop next) ((tPar ++ [0]).drop (delimetr + next))
    let tmp := tPar.drop (next + m)
    if tmp = [] then some (min, none)
    else some (min, some (atoi (tmp.take ((tmp.takeWhile (· ≠ 32)).length + 1))))

/-- The comparison with the limits. -/
def inLimits (limits : ℤ × Option ℤ) (n : ℤ) : Bool :=
  decide (limits.1 ≤ n) && limits.2.all fun max => decide (n ≤ max)

/-- `utl::isCorrespondW`; nothing where it leaves an array. -/
def isCorrespondDesc [LongWidth] (pDesc s : Bytes) : Option Bool :=
  let s := cstr s
  let desc := (cstr pDesc).dropWhile fun c => c = 123 || c = 32
  if desc = [] then some false
  else
    let n := (desc.takeWhile fun c => c ≠ 58 && c ≠ 32).length
    if desc.drop n = [] then some false
    else
      let lim := (desc.drop n).dropWhile fun c => c = 58 || c = 32
      if ncaseEq n desc (str "ip") then isIp s
      -- `eL` begins at the NUL, so the loop that looks for the brace ends at once, and the last
      -- byte is cut off whatever it is; without one `tPar` would have the length -1
      else if lim = [] then none
      else
        let tPar := lim.dropLast
        if ncaseEq n desc (str "choice") then
          some (decide (1 < tPar.length) && (alternatives tPar).any (matchNstrict s))
        else
          (paramLimits tPar).map fun limits =>
            if ncaseEq n desc (str "str") then inLimits limits (toInt s.length)
            else if ncaseEq n desc (str "int") then
              (s.take (toInt s.length).toNat).all isDigit && inLimits limits (atoi s)
            else false

/-! ## Masks with two limits -/

/-- Two limits that are `int` constants. -/
structure ParamLimits where
  min : ℕ
  max : ℕ
  le : min ≤ max
  fits : max < 2147483648

/-- `{int:a-b}`. -/
def ParamLimits.intDesc (l : ParamLimits) : Bytes :=
  str "\x7bint:" ++ (decimal l.min ++ 45 :: (decimal l.max ++ [125]))

/-- `{str:a-b}`. -/
def ParamLimits.strDesc (l : ParamLimits) : Bytes :=
  str "\x7bstr:" ++ (decimal l.min ++ 45 :: (decimal l.max ++ [125]))

/-- The value of a row of digits. -/
def digitsValue (s : Bytes) : ℕ := readDigits 0 s

/-- What `atoi` makes of a value: no more than the greatest `long`, and of this what an `int`
keeps. -/
def longInt [LongWidth] (n : ℕ) : ℤ := toInt (min (n : ℤ) (2 ^ (LongWidth.bits - 1) - 1))

variable {s t ds rest : Bytes} {l : ParamLimits}

theorem atoi_decimal [LongWidth] {n : ℕ} (hn : n < 2147483648) : atoi (decimal n) = n :=
  atoi_toString ⟨by omega, by omega⟩

/-! ## Reading the limits -/

theorem ne_of_digit {c : UInt8} (hc : isDigit c = true) : c ≠ 32 ∧ c ≠ 45 ∧ c ≠ 58 := by
  refine ⟨?_, ?_, ?_⟩
  all_goals
    rintro rfl
    exact absurd hc (by decide)

/-- Digits up to a hyphen. -/
theorem lowerEnd_digits (hds : ∀ c ∈ ds, isDigit c = true) (rest v : Bytes) :
    lowerEnd (ds ++ 45 :: rest) (ds ++ v) = some ds.length := by
  induction ds with
  | nil =>
    rw [List.nil_append, List.length_nil]
    unfold lowerEnd
    exact if_pos rfl
  | cons c ds ih =>
    obtain ⟨hc, hds⟩ := List.forall_mem_cons.mp hds
    obtain ⟨hblank, hhyphen, -⟩ := ne_of_digit hc
    rw [List.cons_append, List.cons_append, lowerEnd, if_neg hhyphen]
    simp only [if_neg hblank, ih hds, Option.map_some, List.length_cons]

/-- **The limits of `a-b`.** -/
theorem paramLimits_digits [LongWidth] {lo hi : Bytes} (hlo : ∀ c ∈ lo, isDigit c = true)
    (hlone : lo ≠ []) (hhi : ∀ c ∈ hi, isDigit c = true) (hhine : hi ≠ []) :
    paramLimits (lo ++ 45 :: hi) = some (atoi lo, some (atoi hi)) := by
  obtain ⟨c, lo', rfl⟩ := List.exists_cons_of_ne_nil hlone
  obtain ⟨d, hi', rfl⟩ := List.exists_cons_of_ne_nil hhine
  obtain ⟨hcblank, -, -⟩ := ne_of_digit (hlo c List.mem_cons_self)
  obtain ⟨hdblank, hdhyphen, -⟩ := ne_of_digit (hhi d List.mem_cons_self)
  have hnoblank : ((c :: lo') ++ 45 :: d :: hi').takeWhile (· = 32) = [] := by
    rw [List.cons_append, List.takeWhile_cons_of_neg (by simpa using hcblank)]
  have hlower : lowerEnd ((c :: lo') ++ 45 :: d :: hi') ((c :: lo') ++ 45 :: d :: hi' ++ [0]) =
      some (c :: lo').length := by
    rw [List.append_assoc (c :: lo')]
    exact lowerEnd_digits hlo _ _
  have hbehind : ((c :: lo') ++ 45 :: d :: hi').drop ((c :: lo').length + 1) = d :: hi' :=
    List.drop_length_add_append 1
  have hbehindNul : ((c :: lo') ++ 45 :: d :: hi' ++ [0]).drop ((c :: lo').length + 1) =
      d :: (hi' ++ [0]) := by
    rw [List.append_assoc]
    exact List.drop_length_add_append 1
  have hupper : upperStart (d :: hi') (d :: (hi' ++ [0])) = some 0 := by
    rw [upperStart, if_neg hdhyphen]
    exact if_neg hdblank
  have hall : (d :: hi').takeWhile (· ≠ 32) = d :: hi' := by
    apply List.takeWhile_eq_self_iff.mpr
    intro x hx
    exact decide_eq_true (ne_of_digit (hhi x hx)).1
  rw [paramLimits]
  simp only [hnoblank, List.length_nil, List.drop_zero, Nat.zero_add, hlower, hbehind, hbehindNul,
    hupper, Option.bind_eq_bind, Option.bind_some, Nat.add_zero, List.take_left]
  rw [if_neg (by simp), if_neg (List.cons_ne_nil _ _), hall,
    List.take_of_length_le (Nat.le_succ _)]

/-! ## Reading the mask -/

/-- The name of a kind of parameter, as it stands in a mask. -/
structure KindName where
  text : Bytes
  ne : text ≠ []
  byte : ∀ c ∈ text, c ≠ 0 ∧ c ≠ 32 ∧ c ≠ 58 ∧ c ≠ 123

/-- A mask without blanks. -/
def KindName.desc (k : KindName) (tPar : Bytes) : Bytes :=
  123 :: (k.text ++ 58 :: (tPar ++ [125]))

/-- The name begins with that of a kind, or is a part of it. -/
def KindName.isKind (k : KindName) (kind : Bytes) : Bool :=
  k.text.map toLower == (kind.take k.text.length).map toLower

theorem ncaseEq_name (k : KindName) (rest kind : Bytes) :
    ncaseEq k.text.length (k.text ++ rest) kind = k.isKind kind := by
  rw [ncaseEq, List.take_left]
  rfl

/-- **What is made of a mask without blanks.** -/
theorem isCorrespondDesc_desc [LongWidth] (k : KindName) {tPar : Bytes} (h0 : (0 : UInt8) ∉ tPar)
    (hhead : ∀ c ∈ tPar.head?, c ≠ 58 ∧ c ≠ 32) (s : Bytes) :
    isCorrespondDesc (k.desc tPar) s =
      if k.isKind (str "ip") then isIp (cstr s)
      else if k.isKind (str "choice") then
        some (decide (1 < tPar.length) && (alternatives tPar).any (matchNstrict (cstr s)))
      else
        (paramLimits tPar).map fun limits =>
          if k.isKind (str "str") then inLimits limits (toInt (cstr s).length)
          else if k.isKind (str "int") then
            ((cstr s).take (toInt (cstr s).length).toNat).all isDigit &&
              inLimits limits (atoi (cstr s))
          else false := by
  obtain ⟨c, t, ht⟩ := List.exists_cons_of_ne_nil k.ne
  obtain ⟨-, hblank, -, hbrace⟩ := k.byte c (ht ▸ List.mem_cons_self)
  have hcstr : cstr (k.desc tPar) = k.desc tPar := by
    apply cstr_eq_self
    simp only [KindName.desc, List.mem_cons, List.mem_append, not_or]
    exact ⟨by decide, fun hmem => (k.byte 0 hmem).1 rfl, by decide, h0, by decide⟩
  have hdesc : (k.desc tPar).dropWhile (fun c => c = 123 || c = 32) =
      k.text ++ 58 :: (tPar ++ [125]) := by
    rw [KindName.desc, List.dropWhile_cons_of_pos (by decide), ht, List.cons_append,
      List.dropWhile_cons_of_neg (by simp [hbrace, hblank])]
  have hname : (k.text ++ 58 :: (tPar ++ [125])).takeWhile (fun c => c ≠ 58 && c ≠ 32) =
      k.text := by
    rw [List.takeWhile_append_of_pos, List.takeWhile_cons_of_neg (by decide), List.append_nil]
    intro c hc
    obtain ⟨-, hblank, hcolon, -⟩ := k.byte c hc
    simp [hblank, hcolon]
  have hlim : (58 :: (tPar ++ [125])).dropWhile (fun c => c = 58 || c = 32) = tPar ++ [125] := by
    rw [List.dropWhile_cons_of_pos (by decide)]
    cases tPar with
    | nil => rfl
    | cons x tPar =>
      obtain ⟨hcolon, hblank⟩ := hhead x rfl
      rw [List.cons_append, List.dropWhile_cons_of_neg (by simp [hcolon, hblank])]
  have hbehind : tPar ++ [125] ≠ [] := List.append_ne_nil_of_right_ne_nil _ (List.cons_ne_nil _ _)
  rw [isCorrespondDesc]
  simp only [hcstr, hdesc, hname, List.drop_left, hlim, ncaseEq_name, List.dropLast_concat,
    if_neg hbehind]
  rw [if_neg (by simp [k.ne]), if_neg (List.cons_ne_nil _ _)]

def KindName.int : KindName := ⟨str "int", by simp [str], by simp [str]⟩

def KindName.str : KindName := ⟨Tacppd.str "str", by simp [Tacppd.str], by simp [Tacppd.str]⟩

theorem KindName.int_isKind : KindName.int.isKind (Tacppd.str "ip") = false ∧
    KindName.int.isKind (Tacppd.str "choice") = false ∧
    KindName.int.isKind (Tacppd.str "str") = false ∧
    KindName.int.isKind (Tacppd.str "int") = true := by
  decide +kernel

theorem KindName.str_isKind : KindName.str.isKind (Tacppd.str "ip") = false ∧
    KindName.str.isKind (Tacppd.str "choice") = false ∧
    KindName.str.isKind (Tacppd.str "str") = true := by
  decide +kernel

/-- `a-b`. -/
def ParamLimits.text (l : ParamLimits) : Bytes := decimal l.min ++ 45 :: decimal l.max

theorem ParamLimits.intDesc_eq (l : ParamLimits) : l.intDesc = KindName.int.desc l.text := by
  have hfront : Tacppd.str "\x7bint:" = 123 :: (Tacppd.str "int" ++ [58]) := by decide +kernel
  simp [intDesc, KindName.desc, text, hfront, KindName.int]

theorem ParamLimits.strDesc_eq (l : ParamLimits) : l.strDesc = KindName.str.desc l.text := by
  have hfront : Tacppd.str "\x7bstr:" = 123 :: (Tacppd.str "str" ++ [58]) := by decide +kernel
  simp [strDesc, KindName.desc, text, hfront, KindName.str]

/-- The limits are digits with a hyphen between them. -/
theorem ParamLimits.text_spec [LongWidth] (l : ParamLimits) :
    (0 : UInt8) ∉ l.text ∧ (∀ c ∈ l.text.head?, c ≠ 58 ∧ c ≠ 32) ∧
      paramLimits l.text = some ((l.min : ℤ), some (l.max : ℤ)) := by
  have hmin : ∀ c ∈ decimal l.min, isDigit c = true := fun c hc => isDigit_of_mem_decimal hc
  have hmax : ∀ c ∈ decimal l.max, isDigit c = true := fun c hc => isDigit_of_mem_decimal hc
  have hzero : isDigit 0 = false := by decide
  have hle := l.le
  have hfits := l.fits
  refine ⟨?_, ?_, ?_⟩
  · intro h0
    rcases List.mem_append.mp h0 with hmem | hmem
    · rw [hmin 0 hmem] at hzero
      exact Bool.false_ne_true hzero.symm
    · rcases List.mem_cons.mp hmem with heq | hmem
      · exact absurd heq (by decide)
      · rw [hmax 0 hmem] at hzero
        exact Bool.false_ne_true hzero.symm
  · obtain ⟨c, t, ht⟩ := List.exists_cons_of_ne_nil (toString_ne_nil l.min)
    have hdecimal : decimal l.min = c :: t := ht
    intro x hx
    rw [text, hdecimal, List.cons_append, List.head?_cons, Option.mem_some_iff] at hx
    obtain rfl := hx
    obtain ⟨hblank, -, hcolon⟩ := ne_of_digit (hmin c (hdecimal ▸ List.mem_cons_self))
    exact ⟨hcolon, hblank⟩
  · rw [text, paramLimits_digits hmin (toString_ne_nil _) hmax (toString_ne_nil _),
      atoi_decimal (by omega), atoi_decimal hfits]

/-! ## What is accepted -/

theorem inLimits_iff {min max n : ℤ} :
    inLimits (min, some max) n = true ↔ min ≤ n ∧ n ≤ max := by
  rw [inLimits, Bool.and_eq_true, Option.all_some, decide_eq_true_eq, decide_eq_true_eq]

theorem isCorrespondDesc_int [LongWidth] (l : ParamLimits) (s : Bytes) :
    isCorrespondDesc l.intDesc s = some true ↔
      (∀ c ∈ (cstr s).take (toInt (cstr s).length).toNat, isDigit c = true) ∧
        (l.min : ℤ) ≤ atoi (cstr s) ∧ atoi (cstr s) ≤ l.max := by
  obtain ⟨h0, hhead, hlimits⟩ := l.text_spec
  obtain ⟨hip, hchoice, hstr, hint⟩ := KindName.int_isKind
  rw [l.intDesc_eq, isCorrespondDesc_desc _ h0 hhead, hip, hchoice, hlimits]
  simp only [hstr, hint, Bool.false_eq_true, if_false, if_true, Option.map_some,
    Option.some.injEq, Bool.and_eq_true, inLimits_iff, List.all_eq_true]

theorem isCorrespondDesc_str [LongWidth] (l : ParamLimits) (s : Bytes) :
    isCorrespondDesc l.strDesc s = some true ↔
      (l.min : ℤ) ≤ toInt (cstr s).length ∧ toInt (cstr s).length ≤ l.max := by
  obtain ⟨h0, hhead, hlimits⟩ := l.text_spec
  obtain ⟨hip, hchoice, hstr⟩ := KindName.str_isKind
  rw [l.strDesc_eq, isCorrespondDesc_desc _ h0 hhead, hip, hchoice, hlimits]
  simp only [hstr, Bool.false_eq_true, if_false, if_true, Option.map_some, Option.some.injEq,
    inLimits_iff]

/-- `atoi` of a row of digits, of the empty one too. -/
theorem atoi_digits [LongWidth] (hs : ∀ c ∈ s, isDigit c = true) :
    atoi s = longInt (digitsValue s) := by
  have hnumber : leadingNumber s = digitsValue s :=
    leadingNumber_of_digit fun c hc => by simpa [isDigit] using hs c hc
  -- no value is below the least `long`
  have hpow := two_pow_le_long
  rw [atoi, strtol, hnumber, longInt, max_eq_right (by omega)]

theorem longInt_eq [LongWidth] {n : ℕ} (hn : n < 2147483648) : longInt n = n := by
  have hpow := two_pow_le_long
  rw [longInt, min_eq_left (by omega), toInt_natCast_eq hn]

/-- The mask `{int:a-b}` takes the rows of digits with a value in its limits. -/
def IntRight [LongWidth] (l : ParamLimits) (s : Bytes) : Prop :=
  isCorrespondDesc l.intDesc s = some true ↔
    cstr s ≠ [] ∧ (∀ c ∈ cstr s, isDigit c = true) ∧ l.min ≤ digitsValue (cstr s) ∧
      digitsValue (cstr s) ≤ l.max

/-- The mask `{str:a-b}` takes the words with a length in its limits. -/
def StrRight [LongWidth] (l : ParamLimits) (s : Bytes) : Prop :=
  isCorrespondDesc l.strDesc s = some true ↔
    l.min ≤ (cstr s).length ∧ (cstr s).length ≤ l.max

/-- The words that are taken for a number and are none in the limits. -/
inductive Misread [LongWidth] (l : ParamLimits) (s : Bytes) : Prop
  /-- The empty word, for 0. -/
  | empty (h : cstr s = []) (hmin : l.min = 0)
  /-- A value that no `int` has room for. -/
  | value (hdigit : ∀ c ∈ cstr s, isDigit c = true) (hbig : 2147483648 ≤ digitsValue (cstr s))
      (hmin : l.min ≤ longInt (digitsValue (cstr s)))
      (hmax : longInt (digitsValue (cstr s)) ≤ l.max)
  /-- A length that no `int` has room for: not all bytes are looked at. -/
  | length (hlen : 2147483648 ≤ (cstr s).length) (hother : ¬ ∀ c ∈ cstr s, isDigit c = true)
      (hfront : ∀ c ∈ (cstr s).take (toInt (cstr s).length).toNat, isDigit c = true)
      (hmin : l.min ≤ atoi (cstr s)) (hmax : atoi (cstr s) ≤ l.max)

/-- All bytes are looked at when there are not too many. -/
theorem take_toInt_length (h : s.length < 2147483648) :
    s.take (toInt s.length).toNat = s := by
  rw [toInt_natCast_eq h, Int.toNat_natCast, List.take_length]

theorem intRight_iff [LongWidth] (l : ParamLimits) (s : Bytes) :
    IntRight l s ↔ ¬ Misread l s := by
  have hfits := l.fits
  rw [IntRight, isCorrespondDesc_int]
  by_cases hdigit : ∀ c ∈ cstr s, isDigit c = true
  · have hfront : ∀ c ∈ (cstr s).take (toInt (cstr s).length).toNat, isDigit c = true :=
      fun c hc => hdigit c (List.mem_of_mem_take hc)
    rw [atoi_digits hdigit]
    by_cases hbig : 2147483648 ≤ digitsValue (cstr s)
    · -- the value is above the upper limit
      constructor
      · rintro h (⟨hnil, -⟩ | ⟨-, -, hmin, hmax⟩ | ⟨-, hother, -, -, -⟩)
        · rw [hnil] at hbig
          exact absurd hbig (by decide)
        · have hle := (h.mp ⟨hfront, hmin, hmax⟩).2.2.2
          omega
        · exact hother hdigit
      · intro h
        refine iff_of_false ?_ ?_
        · rintro ⟨-, hmin, hmax⟩
          exact h (.value hdigit hbig hmin hmax)
        · rintro ⟨-, -, -, hmax⟩
          omega
    · rw [longInt_eq (by omega)]
      constructor
      · rintro h (⟨hnil, hmin⟩ | ⟨-, hbig', -, -⟩ | ⟨-, hother, -, -, -⟩)
        · have hzero : digitsValue (cstr s) = 0 := by
            rw [hnil]
            rfl
          exact (h.mp ⟨hfront, by omega, by omega⟩).1 hnil
        · exact hbig hbig'
        · exact hother hdigit
      · intro h
        constructor
        · rintro ⟨-, hmin, hmax⟩
          refine ⟨fun hnil => h (.empty hnil ?_), hdigit, by omega, by omega⟩
          have hzero : digitsValue (cstr s) = 0 := by
            rw [hnil]
            rfl
          omega
        · rintro ⟨-, -, hmin, hmax⟩
          exact ⟨hfront, by omega, by omega⟩
  · constructor
    · rintro h (⟨hnil, -⟩ | ⟨hdigit', -, -, -⟩ | ⟨-, -, hfront, hmin, hmax⟩)
      · rw [hnil] at hdigit
        exact hdigit (by simp)
      · exact hdigit hdigit'
      · exact hdigit (h.mp ⟨hfront, hmin, hmax⟩).2.1
    · intro h
      refine iff_of_false ?_ fun hright => hdigit hright.2.1
      rintro ⟨hfront, hmin, hmax⟩
      by_cases hlen : 2147483648 ≤ (cstr s).length
      · exact h (.length hlen hdigit hfront hmin hmax)
      · rw [take_toInt_length (by omega)] at hfront
        exact hdigit hfront

theorem strRight_iff [LongWidth] (l : ParamLimits) (s : Bytes) :
    StrRight l s ↔ ¬ (2147483648 ≤ (cstr s).length ∧
      (l.min : ℤ) ≤ toInt (cstr s).length ∧ toInt (cstr s).length ≤ l.max) := by
  have hfits := l.fits
  rw [StrRight, isCorrespondDesc_str]
  by_cases hlen : 2147483648 ≤ (cstr s).length
  · constructor
    · rintro h ⟨-, hmin, hmax⟩
      have hle := (h.mp ⟨hmin, hmax⟩).2
      omega
    · intro h
      refine iff_of_false (fun hboth => h ⟨hlen, hboth⟩) ?_
      rintro ⟨-, hmax⟩
      omega
  · rw [toInt_natCast_eq (by omega)]
    refine iff_of_true ?_ fun h => hlen h.1
    constructor
    · rintro ⟨hmin, hmax⟩
      omega
    · rintro ⟨hmin, hmax⟩
      omega

/-- **What the commands are parsed with**: the mask that has been read beforehand takes the same
words, when an `int` has room for their lengths. -/
theorem isCorrespondDesc_eq [LongWidth] (l : ParamLimits) (hlen : (cstr s).length < 2147483648) :
    isCorrespondDesc l.strDesc s = isCorrespondW (.str l.min (some l.max)) (cstr s) ∧
      isCorrespondDesc l.intDesc s = isCorrespondW (.int l.min (some l.max)) (cstr s) := by
  obtain ⟨h0, hhead, hlimits⟩ := l.text_spec
  constructor
  · obtain ⟨hip, hchoice, hstr⟩ := KindName.str_isKind
    rw [l.strDesc_eq, isCorrespondDesc_desc _ h0 hhead, hip, hchoice, hlimits,
      toInt_natCast_eq hlen]
    simp [hstr, inLimits, isCorrespondW]
  · obtain ⟨hip, hchoice, hstr, hint⟩ := KindName.int_isKind
    rw [l.intDesc_eq, isCorrespondDesc_desc _ h0 hhead, hip, hchoice, hlimits,
      take_toInt_length hlen]
    simp [hstr, hint, inLimits, isCorrespondW, Bool.and_assoc]

/-- **Which words both masks judge rightly.** -/
theorem isCorrespondDesc_iff [LongWidth] (l : ParamLimits) (s : Bytes) :
    (IntRight l s ↔ ¬ Misread l s) ∧
    (StrRight l s ↔ ¬ (2147483648 ≤ (cstr s).length ∧
      (l.min : ℤ) ≤ toInt (cstr s).length ∧ toInt (cstr s).length ≤ l.max)) :=
  ⟨intRight_iff l s, strRight_iff l s⟩

/-- `0-10`. -/
def zeroToTen : ParamLimits := ⟨0, 10, by omega, by omega⟩

theorem isCorrespondDesc_seven :
    isCorrespondDesc (str "\x7bint:0-10\x7d") (str "7") = some true ∧
      isCorrespondDesc (str "\x7bstr:0-10\x7d") (str "7") = some true := by
  have hdesc : zeroToTen.intDesc = str "\x7bint:0-10\x7d" ∧
      zeroToTen.strDesc = str "\x7bstr:0-10\x7d" := by
    decide +kernel
  have hcstr : cstr (str "7") = [55] := by decide +kernel
  obtain ⟨hint, hstr⟩ := isCorrespondDesc_iff zeroToTen (str "7")
  rw [← hdesc.1, ← hdesc.2]
  constructor
  · apply (hint.mpr ?_).mpr
    · rw [hcstr]
      exact ⟨by simp, by simp [isDigit], by decide, by decide⟩
    · rintro (⟨hnil, -⟩ | ⟨-, hbig, -, -⟩ | ⟨hlen, -, -, -, -⟩)
      · rw [hcstr] at hnil
        exact absurd hnil (List.cons_ne_nil _ _)
      · rw [hcstr] at hbig
        exact absurd hbig (by decide)
      · rw [hcstr] at hlen
        exact absurd hlen (by decide)
  · apply (hstr.mpr ?_).mpr
    · rw [hcstr]
      decide
    · rw [hcstr]
      exact fun h => absurd h.1 (by decide)

/-- The empty word, and 2 ^ 32 + 5. -/
theorem isCorrespondDesc_wrong :
    ¬ IntRight zeroToTen [] ∧ ¬ IntRight zeroToTen (str "4294967301") ∧
      isCorrespondDesc (str "\x7bint:0-10\x7d") [] = some true ∧
      isCorrespondDesc (str "\x7bint:0-10\x7d") (str "4294967301") = some true := by
  have hdesc : zeroToTen.intDesc = str "\x7bint:0-10\x7d" := by decide +kernel
  have htaken : isCorrespondDesc zeroToTen.intDesc [] = some true ∧
      isCorrespondDesc zeroToTen.intDesc (str "4294967301") = some true := by decide +kernel
  refine ⟨fun h => (h.mp htaken.1).1 rfl, fun h => ?_, ?_⟩
  · have hmax := (h.mp htaken.2).2.2.2
    exact absurd hmax (by decide +kernel)
  · rw [← hdesc]
    exact htaken

end Tacppd
