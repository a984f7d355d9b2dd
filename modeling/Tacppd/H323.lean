/-
# Time stamps of voice calls

A gateway gives the times of a call as `14:31:14.905 VSK Tue Nov 6 2001`.  `utl::h323time2iso`
cuts such a stamp at fixed places, `utl::h323time2time` reads it from separator to separator.

The second counts the months from 1, where `mktime` counts from 0, and does not step over the
blank in front of the day, so that the day is read as 0 and the number of the day as the year.
The two agree on no stamp (`h323_disagree`).
-/
import Tacppd.PoolAddr
import Tacppd.XmlRoundTrip

namespace Tacppd

/-! ## Both functions -/

def monthNames : List Bytes :=
  [str "Jan", str "Feb", str "Mar", str "Apr", str "May", str "Jun", str "Jul", str "Aug",
    str "Sep", str "Oct", str "Nov", str "Dec"]

/-- The chain of comparisons: 1 to 12, and 0 for another text. -/
def monthOf (t : Bytes) : ℤ :=
  match monthNames.findIdx? (scomp t) with
  | some i => i + 1
  | none => 0

/-- At most `n` bytes from the place `i` on, up to a `stop`; nothing where the place is behind the
terminating NUL. -/
def cutAt (s : Bytes) (i n : ℕ) (stop : UInt8) : Option Bytes :=
  if i ≤ s.length then some (((s.drop i).take n).takeWhile (· ≠ stop)) else none

/-- `utl::h323time2iso`. -/
def h323time2iso [LongWidth] (s : Bytes) : Option Bytes :=
  if s.length < 6 then some (str "1980-01-01 00:00:00")
  else do
    let t := s.take 8
    let i := t.length + 13
    let m ← cutAt s i 3 0
    let i := i + m.length + 1
    let d ← cutAt s i 2 32
    let i := i + d.length + 1
    let y ← cutAt s i 4 0
    some (snprintf 63 (y ++ str "-" ++ padded 2 (monthOf m) ++ str "-" ++ padded 2 (atoi d) ++
      str " " ++ t))

/-- A loop that copies up to `stop` into `char str[40]`, which must keep room for the NUL, and the
rest of the text behind the `stop`. -/
def readUpTo (stop : UInt8) (s : Bytes) : Option (Bytes × Bytes) :=
  let t := s.takeWhile (· ≠ stop)
  if t.length < 40 then some (t, (s.dropWhile (· ≠ stop)).tail) else none

/-- A loop that skips a text and the `stop` behind it. -/
def skipUpTo (stop : UInt8) (s : Bytes) : Bytes := (s.dropWhile (· ≠ stop)).tail

/-- The fields that `utl::h323time2time` gives `mktime`.  The loop for the month leaves the blank
behind it, at which the loop for the day ends at once; the year is all the rest. -/
def h323Fields [LongWidth] (s : Bytes) : Option Tm := do
  let (hour, s) ← readUpTo 58 s
  let (min, s) ← readUpTo 58 s
  let (sec, s) ← readUpTo 46 s
  let s := skipUpTo 32 (skipUpTo 32 (skipUpTo 32 s))
  let (mon, _) ← readUpTo 32 s
  let s := s.dropWhile (· ≠ 32)
  let (day, _) ← readUpTo 32 s
  let s := s.dropWhile (· ≠ 32)
  let (year, _) ← readUpTo 0 s
  some ⟨atoi year - 1900, monthOf mon, atoi day, atoi hour, atoi min, atoi sec, 0⟩

/-- `utl::h323time2time`. -/
def h323time2time [LongWidth] (mktime : Tm → ℤ) (s : Bytes) : Option ℤ :=
  if s.length < 5 then some 0 else (h323Fields s).map mktime

/-! ## Stamps -/

/-- A number of a stamp, with at least `lo` and at most `hi` digits. -/
structure StampNumber (lo hi : ℕ) where
  text : Bytes
  digit : ∀ c ∈ text, isDigit c = true
  lo : lo ≤ text.length
  hi : text.length ≤ hi

def StampNumber.value {lo hi : ℕ} (x : StampNumber lo hi) : ℤ := readDigits 0 x.text

/-- Three letters, or other bytes that are no blank and no NUL. -/
structure StampName where
  text : Bytes
  len : text.length = 3
  zero : (0 : UInt8) ∉ text
  blank : (32 : UInt8) ∉ text

/-- `HH:MM:SS.mmm ZZZ Www Mon D[D] YYYY`. -/
structure Stamp where
  hour : StampNumber 2 2
  min : StampNumber 2 2
  sec : StampNumber 2 2
  ms : StampNumber 3 3
  zone : StampName
  wday : StampName
  mon : Fin 12
  mday : StampNumber 1 2
  year : StampNumber 4 4

def monthName (mon : Fin 12) : Bytes := monthNames[mon]

def Stamp.time (st : Stamp) : Bytes :=
  st.hour.text ++ 58 :: (st.min.text ++ 58 :: st.sec.text)

def Stamp.text (st : Stamp) : Bytes :=
  st.time ++ 46 :: (st.ms.text ++ 32 :: (st.zone.text ++ 32 :: (st.wday.text ++ 32 ::
    (monthName st.mon ++ 32 :: (st.mday.text ++ 32 :: st.year.text)))))

/-- The fields of the stamp, as `mktime` is to have them. -/
def Stamp.tm (st : Stamp) (isdst : ℤ) : Tm :=
  ⟨st.year.value - 1900, st.mon.val, st.mday.value, st.hour.value, st.min.value, st.sec.value,
    isdst⟩

variable {lo hi n : ℕ} {s t rest : Bytes} {stop : UInt8}

theorem monthName_spec (mon : Fin 12) : (monthName mon).length = 3 ∧ (0 : UInt8) ∉ monthName mon ∧
    (32 : UInt8) ∉ monthName mon ∧ monthOf (monthName mon) = mon.val + 1 := by
  have hall : ∀ mon : Fin 12, (monthName mon).length = 3 ∧ (0 : UInt8) ∉ monthName mon ∧
      (32 : UInt8) ∉ monthName mon ∧ monthOf (monthName mon) = mon.val + 1 := by
    decide +kernel
  exact hall mon

theorem StampNumber.not_mem (x : StampNumber lo hi) {c : UInt8} (hc : isDigit c = false) :
    c ∉ x.text := by
  intro h
  rw [x.digit c h] at hc
  exact Bool.false_ne_true hc.symm

theorem StampNumber.bounds (x : StampNumber lo hi) : 0 ≤ x.value ∧ x.value < 10 ^ hi := by
  have hread := readDigits_lt (show 0 < 10 ^ 0 by simp) x.text
  have hpow : 10 ^ (0 + x.text.length) ≤ 10 ^ hi :=
    Nat.pow_le_pow_right (by omega) (by simpa using x.hi)
  rw [value]
  exact ⟨Int.natCast_nonneg _, by exact_mod_cast hread.trans_le hpow⟩

theorem StampNumber.atoi_text [LongWidth] (x : StampNumber lo hi) (hhi : hi ≤ 9) :
    atoi x.text = x.value :=
  atoi_of_digit (fun c hc => by simpa [isDigit] using x.digit c hc) (x.hi.trans hhi)

/-! ## Reading up to a separator -/

theorem readUpTo_until (h : stop ∉ t) (hlen : t.length < 40) :
    readUpTo stop (t ++ stop :: rest) = some (t, rest) := by
  rw [readUpTo]
  simp only [takeWhile_until h, dropWhile_until h, if_pos hlen, List.tail_cons]

theorem skipUpTo_until (h : stop ∉ t) : skipUpTo stop (t ++ stop :: rest) = rest := by
  rw [skipUpTo, dropWhile_until h, List.tail_cons]

/-! ## From separator to separator -/

theorem readDigits_until {c : UInt8} (hc : isDigit c = false) (ht : ∀ c ∈ t, isDigit c = true)
    (k : ℕ) : readDigits k (t ++ c :: rest) = readDigits k t := by
  induction t generalizing k with
  | nil =>
    have hne : ¬ (48 ≤ c ∧ c ≤ 57) := by simpa [isDigit] using hc
    show readDigits k (c :: rest) = k
    rw [readDigits, if_neg hne]
  | cons d t ih =>
    have hd : 48 ≤ d ∧ d ≤ 57 := by simpa [isDigit] using ht d List.mem_cons_self
    rw [List.cons_append, readDigits, if_pos hd, readDigits, if_pos hd]
    exact ih (fun x hx => ht x (List.mem_cons_of_mem d hx)) _

/-- A number between blanks. -/
theorem atoi_between [LongWidth] (x : StampNumber lo hi) (hlo : 0 < lo) (hhi : hi ≤ 9) :
    atoi (32 :: (x.text ++ 32 :: rest)) = x.value := by
  rw [← x.atoi_text hhi]
  apply atoi_congr
  obtain ⟨t, hdigit, hlen, -⟩ := x
  cases t with
  | nil =>
    rw [List.length_nil] at hlen
    omega
  | cons d t =>
    have hd : 48 ≤ d ∧ d ≤ 57 := by simpa [isDigit] using hdigit d List.mem_cons_self
    have hspace : leadingNumber (32 :: (d :: t ++ 32 :: rest)) =
        leadingNumber (d :: t ++ 32 :: rest) := by
      rw [leadingNumber, List.dropWhile_cons_of_pos (by decide), ← leadingNumber]
    rw [hspace, List.cons_append, leadingNumber_cons hd.1, leadingNumber_cons hd.1,
      ← List.cons_append, readDigits_until (by decide) hdigit]

theorem Stamp.zero_not_mem_end (st : Stamp) :
    (0 : UInt8) ∉ 32 :: (st.mday.text ++ 32 :: st.year.text) := by
  simp [st.mday.not_mem (show isDigit 0 = false by decide),
    st.year.not_mem (show isDigit 0 = false by decide)]

/-- **What `h323time2time` makes of a stamp**: the month counted from 1, no day, and the day for
the year. -/
theorem h323Fields_text [LongWidth] (st : Stamp) :
    h323Fields st.text = some { st.tm 0 with
      year := st.mday.value - 1900
      mon := st.mon.val + 1
      mday := 0 } := by
  obtain ⟨hmlen, -, hmblank, hmonth⟩ := monthName_spec st.mon
  have hcolon : isDigit 58 = false := by decide
  have hdot : isDigit 46 = false := by decide
  have hblank : isDigit 32 = false := by decide
  have hhour := st.hour.hi
  have hmin := st.min.hi
  have hsec := st.sec.hi
  have hmday := st.mday.hi
  have hyear := st.year.hi
  have htext : st.text = st.hour.text ++ 58 :: (st.min.text ++ 58 :: (st.sec.text ++ 46 ::
      (st.ms.text ++ 32 :: (st.zone.text ++ 32 :: (st.wday.text ++ 32 ::
        (monthName st.mon ++ 32 :: (st.mday.text ++ 32 :: st.year.text))))))) := by
    simp only [Stamp.text, Stamp.time, List.append_assoc, List.cons_append]
  have hend : readUpTo 0 (32 :: (st.mday.text ++ 32 :: st.year.text)) =
      some (32 :: (st.mday.text ++ 32 :: st.year.text), []) := by
    have hall := forall_ne st.zero_not_mem_end
    rw [readUpTo]
    simp only [List.takeWhile_eq_self_iff.mpr hall, List.dropWhile_eq_nil_iff.mpr hall]
    rw [if_pos (by simp; omega)]
    rfl
  rw [h323Fields, htext, readUpTo_until (st.hour.not_mem hcolon) (by omega)]
  simp only [Option.bind_eq_bind, Option.bind_some]
  rw [readUpTo_until (st.min.not_mem hcolon) (by omega)]
  simp only [Option.bind_some]
  rw [readUpTo_until (st.sec.not_mem hdot) (by omega)]
  simp only [Option.bind_some]
  rw [skipUpTo_until (st.ms.not_mem hblank), skipUpTo_until st.zone.blank,
    skipUpTo_until st.wday.blank, readUpTo_until hmblank (by omega)]
  simp only [Option.bind_some]
  rw [dropWhile_until hmblank]
  -- the loop for the day stands at the blank
  have hnone : readUpTo 32 (32 :: (st.mday.text ++ 32 :: st.year.text)) =
      some ([], st.mday.text ++ 32 :: st.year.text) := by
    exact @readUpTo_until [] _ 32 List.not_mem_nil (by simp)
  have hsame : (32 :: (st.mday.text ++ 32 :: st.year.text)).dropWhile (· ≠ (32 : UInt8)) =
      32 :: (st.mday.text ++ 32 :: st.year.text) := by
    exact @dropWhile_until [] _ 32 List.not_mem_nil
  rw [hnone]
  simp only [Option.bind_some]
  rw [hsame, hend]
  simp only [Option.bind_some, atoi_between st.mday (by omega) (by omega), hmonth, atoi_nil,
    st.hour.atoi_text (by omega), st.min.atoi_text (by omega), st.sec.atoi_text (by omega)]
  rfl

/-! ## At fixed places -/

theorem cutAt_append {a b c : Bytes} {i : ℕ} (hi : a.length = i) (hb : stop ∉ b)
    (hn : b.length = n ∨ b.length < n ∧ ∃ c', c = stop :: c') :
    cutAt (a ++ (b ++ c)) i n stop = some b := by
  have hall := forall_ne hb
  rw [cutAt, if_pos (by simp; omega), ← hi, List.drop_left]
  rcases hn with rfl | ⟨hlt, c, rfl⟩
  · rw [List.take_left, List.takeWhile_eq_self_iff.mpr hall]
  · obtain ⟨k, rfl⟩ : ∃ k, n = b.length + (k + 1) := ⟨n - b.length - 1, by omega⟩
    rw [List.take_append, List.take_of_length_le (by omega), Nat.add_sub_cancel_left,
      List.take_succ_cons, takeWhile_until hb]

/-- The text of a date, as the database has it. -/
def Stamp.iso (st : Stamp) : Bytes :=
  st.year.text ++ str "-" ++ padded 2 (st.mon.val + 1) ++ str "-" ++ padded 2 st.mday.value ++
    str " " ++ st.time

theorem StampNumber.length_eq (x : StampNumber n n) : x.text.length = n :=
  Nat.le_antisymm x.hi x.lo

theorem Stamp.length_time (st : Stamp) : st.time.length = 8 := by
  simp [Stamp.time, st.hour.length_eq, st.min.length_eq, st.sec.length_eq]

/-- **What `h323time2iso` makes of a stamp.** -/
theorem h323time2iso_text [LongWidth] (st : Stamp) : h323time2iso st.text = some st.iso := by
  obtain ⟨hmlen, hmzero, -, hmonth⟩ := monthName_spec st.mon
  have hzero : isDigit 0 = false := by decide
  have hms := st.ms.length_eq
  have hzone := st.zone.len
  have hwday := st.wday.len
  have hyear := st.year.length_eq
  have hmday := st.mday.hi
  have htime := st.length_time
  -- the text in front of the month, of the day and of the year
  have hmonthAt : st.text = (st.time ++ 46 :: (st.ms.text ++ 32 :: (st.zone.text ++ 32 ::
      (st.wday.text ++ [32])))) ++ (monthName st.mon ++ (32 :: (st.mday.text ++ 32 ::
        st.year.text))) := by
    simp [Stamp.text]
  have hmdayAt : st.text = (st.time ++ 46 :: (st.ms.text ++ 32 :: (st.zone.text ++ 32 ::
      (st.wday.text ++ 32 :: (monthName st.mon ++ [32]))))) ++ (st.mday.text ++ (32 ::
        st.year.text)) := by
    simp [Stamp.text]
  have hyearAt : st.text = (st.time ++ 46 :: (st.ms.text ++ 32 :: (st.zone.text ++ 32 ::
      (st.wday.text ++ 32 :: (monthName st.mon ++ 32 :: (st.mday.text ++ [32])))))) ++
        (st.year.text ++ []) := by
    simp [Stamp.text]
  have htake : st.text.take 8 = st.time := by
    rw [Stamp.text, ← htime, List.take_left]
  have hmonthCut : cutAt st.text 21 3 0 = some (monthName st.mon) := by
    rw [hmonthAt]
    apply cutAt_append ?_ hmzero (.inl hmlen)
    simp [htime, hms, hzone, hwday]
  have hmdayCut : cutAt st.text 25 2 32 = some st.mday.text := by
    rw [hmdayAt]
    apply cutAt_append ?_ (st.mday.not_mem (by decide))
    · by_cases htwo : st.mday.text.length = 2
      · exact .inl htwo
      · exact .inr ⟨by omega, _, rfl⟩
    · simp [htime, hms, hzone, hwday, hmlen]
  have hyearCut : cutAt st.text (25 + st.mday.text.length + 1) 4 0 = some st.year.text := by
    rw [hyearAt]
    apply cutAt_append ?_ (st.year.not_mem hzero) (.inl hyear)
    simp [htime, hms, hzone, hwday, hmlen]
    omega
  have hlen : ¬ st.text.length < 6 := by
    rw [Stamp.text, List.length_append]
    omega
  rw [h323time2iso, if_neg hlen]
  simp only [htake, htime, hmonthCut, hmlen, hmdayCut, hyearCut, Option.bind_eq_bind,
    Option.bind_some, hmonth, st.mday.atoi_text (show 2 ≤ 9 by omega)]
  have hpad := (padded_spec (show 0 < 2 by omega)
    (show (0 : ℤ) ≤ st.mon.val + 1 ∧ (st.mon.val : ℤ) + 1 < 10 ^ 2 by omega))
  have hpadDay := padded_spec (show 0 < 2 by omega) st.mday.bounds
  have hsep : (str "-").length = 1 ∧ (str " ").length = 1 ∧ (0 : UInt8) ∉ str "-" ∧
      (0 : UInt8) ∉ str " " := by decide
  have htime0 : (0 : UInt8) ∉ st.time := by
    simp [Stamp.time, st.hour.not_mem hzero, st.min.not_mem hzero, st.sec.not_mem hzero]
  rw [Stamp.iso, snprintf_eq_self]
  · simp only [List.mem_append, not_or]
    exact ⟨⟨⟨⟨⟨⟨st.year.not_mem hzero, hsep.2.2.1⟩, hpad.2.1⟩, hsep.2.2.1⟩, hpadDay.2.1⟩,
      hsep.2.2.2⟩, htime0⟩
  · simp only [List.length_append, hyear, hpad.1, hpadDay.1, hsep.1, hsep.2.1, htime]
    omega

/-- A text at its place is read as the number that it is. -/
theorem numberAt_text [LongWidth] {a b : Bytes} {i : ℕ} (hi : a.length = i) (hn : t.length = n)
    (h0 : (0 : UInt8) ∉ t) : numberAt (a ++ (t ++ b)) i n = atoi t := by
  rw [numberAt, ← hi, List.drop_left, List.take_left' hn, cstr_eq_self h0]

/-- **The fields that come back from there** are those of the stamp. -/
theorem iso2time_iso [LongWidth] (m : XmlMachine) (st : Stamp) :
    m.iso2time st.iso = m.mktime (st.tm m.isdst) := by
  have hzero : isDigit 0 = false := by decide
  have hyear := st.year.length_eq
  have hhour := st.hour.length_eq
  have hmin := st.min.length_eq
  have hsec := st.sec.length_eq
  have hmon : (0 : ℤ) ≤ st.mon.val + 1 ∧ (st.mon.val : ℤ) + 1 < 10 ^ 2 := by omega
  have hmday := st.mday.bounds
  obtain ⟨hplen, -, -⟩ := padded_spec (show 0 < 2 by omega) hmon
  obtain ⟨hdlen, -, -⟩ := padded_spec (show 0 < 2 by omega) hmday
  have hiso : st.iso = st.year.text ++ (45 :: (padded 2 (st.mon.val + 1) ++ (45 ::
      (padded 2 st.mday.value ++ (32 :: (st.hour.text ++ (58 :: (st.min.text ++ (58 ::
        st.sec.text))))))))) := by
    have hdash : str "-" = [45] := by decide
    have hblank : str " " = [32] := by decide
    simp only [Stamp.iso, Stamp.time, hdash, hblank, List.append_assoc, List.cons_append,
      List.nil_append]
  have h0 : numberAt st.iso 0 4 = st.year.value := by
    rw [← st.year.atoi_text (by omega), hiso]
    exact @numberAt_text _ _ _ [] _ 0 rfl hyear (st.year.not_mem hzero)
  have h5 : numberAt st.iso 5 2 = st.mon.val + 1 := by
    rw [hiso, ← List.singleton_append, ← List.append_assoc]
    exact numberAt_append (by omega) hmon (by simp [hyear])
  have h8 : numberAt st.iso 8 2 = st.mday.value := by
    have hat : st.iso = (st.year.text ++ 45 :: (padded 2 (st.mon.val + 1) ++ [45])) ++
        (padded 2 st.mday.value ++ (32 :: st.time)) := by
      simp [hiso, Stamp.time]
    rw [hat]
    exact numberAt_append (by omega) hmday (by simp [hyear, hplen])
  have h11 : numberAt st.iso 11 2 = st.hour.value := by
    have hat : st.iso = (st.year.text ++ 45 :: (padded 2 (st.mon.val + 1) ++ 45 ::
        (padded 2 st.mday.value ++ [32]))) ++ (st.hour.text ++ (58 :: (st.min.text ++ 58 ::
          st.sec.text))) := by
      simp [hiso]
    rw [← st.hour.atoi_text (by omega), hat]
    exact numberAt_text (by simp [hyear, hplen, hdlen]) hhour (st.hour.not_mem hzero)
  have h14 : numberAt st.iso 14 2 = st.min.value := by
    have hat : st.iso = (st.year.text ++ 45 :: (padded 2 (st.mon.val + 1) ++ 45 ::
        (padded 2 st.mday.value ++ 32 :: (st.hour.text ++ [58])))) ++ (st.min.text ++
          (58 :: st.sec.text)) := by
      simp [hiso]
    rw [← st.min.atoi_text (by omega), hat]
    exact numberAt_text (by simp [hyear, hplen, hdlen, hhour]) hmin (st.min.not_mem hzero)
  have h17 : numberAt st.iso 17 2 = st.sec.value := by
    have hat : st.iso = (st.year.text ++ 45 :: (padded 2 (st.mon.val + 1) ++ 45 ::
        (padded 2 st.mday.value ++ 32 :: (st.hour.text ++ 58 :: (st.min.text ++ [58]))))) ++
          (st.sec.text ++ []) := by
      simp [hiso]
    rw [← st.sec.atoi_text (by omega), hat]
    exact numberAt_text (by simp [hyear, hplen, hdlen, hhour, hmin]) hsec (st.sec.not_mem hzero)
  rw [XmlMachine.iso2time, h0, h5, h8, h11, h14, h17, Stamp.tm, Int.add_sub_cancel]

/-! ## The two ways -/

/-- Both functions give `mktime` the same fields, whatever it makes of them. -/
def StampAgrees [LongWidth] (st : Stamp) : Prop :=
  ∀ m : XmlMachine, h323time2time m.mktime st.text = (h323time2iso st.text).map m.iso2time

theorem h323time2time_text [LongWidth] (mktime : Tm → ℤ) (st : Stamp) :
    h323time2time mktime st.text = some (mktime { st.tm 0 with
      year := st.mday.value - 1900
      mon := st.mon.val + 1
      mday := 0 }) := by
  have hlen : ¬ st.text.length < 5 := by
    have htime := st.length_time
    rw [Stamp.text, List.length_append]
    omega
  rw [h323time2time, if_neg hlen, h323Fields_text, Option.map_some]

/-- A machine that gives the month for the time. -/
def monthMachine : XmlMachine := { XmlMachine.wide with mktime := Tm.mon }

/-- **The two functions agree on no stamp.**  What `h323time2time` gives `mktime` has the month of
the next one, no day, and the number of the day for the year; `h323time2iso` and `iso2time` give it
the fields of the stamp. -/
theorem h323_disagree [LongWidth] (st : Stamp) :
    ¬ StampAgrees st ∧
    (∀ m : XmlMachine, (h323time2iso st.text).map m.iso2time = some (m.mktime (st.tm m.isdst))) ∧
    ∀ mktime : Tm → ℤ, h323time2time mktime st.text = some (mktime { st.tm 0 with
      year := st.mday.value - 1900
      mon := st.mon.val + 1
      mday := 0 }) := by
  have hiso : ∀ m : XmlMachine,
      (h323time2iso st.text).map m.iso2time = some (m.mktime (st.tm m.isdst)) := by
    intro m
    rw [h323time2iso_text, Option.map_some, iso2time_iso]
  refine ⟨?_, hiso, fun mktime => h323time2time_text mktime st⟩
  intro h
  have hmonth := h monthMachine
  rw [hiso, h323time2time_text] at hmonth
  have heq : (st.mon.val : ℤ) + 1 = st.mon.val := Option.some.inj hmonth
  omega

/-- `14:31:14.905 VSK Tue Nov 6 2001`. -/
def novemberStamp : Stamp where
  hour := ⟨str "14", by simp [str, isDigit], by simp [str], by simp [str]⟩
  min := ⟨str "31", by simp [str, isDigit], by simp [str], by simp [str]⟩
  sec := ⟨str "14", by simp [str, isDigit], by simp [str], by simp [str]⟩
  ms := ⟨str "905", by simp [str, isDigit], by simp [str], by simp [str]⟩
  zone := ⟨str "VSK", by simp [str], by simp [str], by simp [str]⟩
  wday := ⟨str "Tue", by simp [str], by simp [str], by simp [str]⟩
  mon := 10
  mday := ⟨str "6", by simp [str, isDigit], by simp [str], by simp [str]⟩
  year := ⟨str "2001", by simp [str, isDigit], by simp [str], by simp [str]⟩

theorem h323_november : ¬ StampAgrees novemberStamp ∧
    novemberStamp.text = str "14:31:14.905 VSK Tue Nov 6 2001" ∧
    h323Fields novemberStamp.text = some ⟨-1894, 11, 0, 14, 31, 14, 0⟩ := by
  refine ⟨?_, by decide +kernel, by decide +kernel⟩
  intro h
  have hmonth : h323time2time Tm.mon novemberStamp.text =
      (h323time2iso novemberStamp.text).map monthMachine.iso2time := h monthMachine
  exact absurd hmonth (by decide +kernel)

end Tacppd
