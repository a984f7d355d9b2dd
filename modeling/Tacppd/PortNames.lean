/-
# The names of a port

A device gives a port as `As7` in one place and as `Async7` in another, and likewise `Se0` and
`Serial0`.  `utl::portConvert` turns the short name into the full one and the full one into the
short one.  Accounting applies it twice and the polling by SNMP once, so that neither brings the
two names together, apart from names in which the part that is left out begins again
(`portKeys_iff`).
-/
import Tacppd.Accounting

namespace Tacppd

/-- The kinds of ports with two names. -/
inductive PortKind
  | async
  | serial
  deriving DecidableEq, Repr

namespace PortKind

def short : PortKind → Bytes
  | async => str "As"
  | serial => str "Se"

/-- What the full name has behind the short one. -/
def middle : PortKind → Bytes
  | async => str "ync"
  | serial => str "rial"

/-- With this behind the short name, the name is not taken for a short one. -/
def guard : PortKind → Bytes
  | async => str "yn"
  | serial => str "ri"

def full (k : PortKind) : Bytes := k.short ++ k.middle

end PortKind

/-- The port of an accounting record, as the tracker has it. -/
def accountingKey (port : Bytes) : Bytes := portConvert (portConvert port)

theorem LogUser.prt_eq (l : LogUser) : l.prt = accountingKey l.port := rfl

variable {k : PortKind} {t x : Bytes}

/-! ## One conversion -/

theorem PortKind.spec (k : PortKind) : k.short.length = 2 ∧ 3 ≤ k.middle.length ∧
    k.middle.length ≤ 4 ∧ k.guard <+: k.middle ∧ (0 : UInt8) ∉ k.full := by
  cases k <;> decide +kernel

/-- Any text is converted as what `char p[100]` holds of it. -/
theorem portConvert_snprintf (hx : snprintf 99 x ≠ []) :
    portConvert (snprintf 99 x) = portConvert x := by
  have hne : x ≠ [] := by
    rintro rfl
    exact hx rfl
  rw [portConvert, portConvert, if_neg hx, if_neg hne, snprintf_snprintf]

theorem scompNum_eq_decide {p : Bytes} {n : ℕ} (hn : t.length = n) :
    scompNum p t n = decide (t <+: p) := by
  rw [← hn, Bool.eq_iff_iff, decide_eq_true_eq]
  exact scompNum_iff

/-- A name begins like one kind only. -/
theorem PortKind.short_inj {k' : PortKind} {p : Bytes} (h : k.short <+: p) (h' : k'.short <+: p) :
    k = k' := by
  have heq : k.short = k'.short := by
    rw [List.prefix_iff_eq_take.mp h, List.prefix_iff_eq_take.mp h', k.spec.1, k'.spec.1]
  revert heq
  cases k <;> cases k' <;> decide +kernel

/-- The branches of the conversion, for a name that fits the buffer. -/
theorem portConvert_eq {p : Bytes} (hp : snprintf 99 p = p) (hne : p ≠ []) :
    portConvert p =
      if str "Se" <+: p ∧ ¬ str "Seri" <+: p then snprintf 99 (str "Serial" ++ p.drop 2)
      else if str "As" <+: p ∧ ¬ str "Asyn" <+: p then snprintf 99 (str "Async" ++ p.drop 2)
      else if str "Serial" <+: p then snprintf 99 (str "Se" ++ p.drop 6)
      else if str "Async" <+: p then snprintf 99 (str "As" ++ p.drop 5)
      else p := by
  have hserial : scompNum p (str "Serial") 6 = decide (str "Serial" <+: p) :=
    scompNum_eq_decide (by decide +kernel)
  have hasync : scompNum p (str "Async") 5 = decide (str "Async" <+: p) :=
    scompNum_eq_decide (by decide +kernel)
  have hse : scompNum p (str "Se") 2 = decide (str "Se" <+: p) :=
    scompNum_eq_decide (by decide +kernel)
  have hseri : scompNum p (str "Seri") 4 = decide (str "Seri" <+: p) :=
    scompNum_eq_decide (by decide +kernel)
  have has : scompNum p (str "As") 2 = decide (str "As" <+: p) :=
    scompNum_eq_decide (by decide +kernel)
  have hasyn : scompNum p (str "Asyn") 4 = decide (str "Asyn" <+: p) :=
    scompNum_eq_decide (by decide +kernel)
  rw [portConvert, if_neg hne]
  simp only [hp, hserial, hasync, hse, hseri, has, hasyn, Bool.and_eq_true, Bool.not_eq_true',
    decide_eq_true_eq, decide_eq_false_iff_not]

/-- **The conversion of a name** that begins like a short one. -/
theorem portConvert_of_short {p : Bytes} (hp : snprintf 99 p = p) (hshort : k.short <+: p) :
    portConvert p =
      if k.short ++ k.guard <+: p then
        if k.full <+: p then snprintf 99 (k.short ++ p.drop k.full.length) else p
      else snprintf 99 (k.full ++ p.drop 2) := by
  have hne : p ≠ [] := by
    rintro rfl
    have hlen := hshort.length_le
    rw [k.spec.1, List.length_nil] at hlen
    omega
  have hother : ∀ {k' : PortKind} {t : Bytes}, k' ≠ k → k'.short <+: t → ¬ t <+: p :=
    fun hk ht h => hk (PortKind.short_inj (ht.trans h) hshort)
  rw [portConvert_eq hp hne]
  cases k with
  | async =>
    have hse : ¬ str "Se" <+: p := @hother .serial _ (by decide) (by decide +kernel)
    have hserial : ¬ str "Serial" <+: p := @hother .serial _ (by decide) (by decide +kernel)
    have has : str "As" <+: p := hshort
    have hguard : PortKind.async.short ++ PortKind.async.guard = str "Asyn" := by decide +kernel
    have hfull : PortKind.async.full = str "Async" ∧ (str "Async").length = 5 := by decide +kernel
    rw [hguard, hfull.1, hfull.2, if_neg (fun h => hse h.1), if_neg hserial]
    simp only [has, true_and, ite_not]
    rfl
  | serial =>
    have has : ¬ str "As" <+: p := @hother .async _ (by decide) (by decide +kernel)
    have hasync : ¬ str "Async" <+: p := @hother .async _ (by decide) (by decide +kernel)
    have hse : str "Se" <+: p := hshort
    have hguard : PortKind.serial.short ++ PortKind.serial.guard = str "Seri" := by decide +kernel
    have hfull : PortKind.serial.full = str "Serial" ∧ (str "Serial").length = 6 := by
      decide +kernel
    rw [hguard, hfull.1, hfull.2, if_neg hasync,
      if_neg (show ¬ (str "As" <+: p ∧ ¬ str "Asyn" <+: p) from fun h => has h.1)]
    simp only [hse, true_and, ite_not]
    rfl

/-- The same for the short name with a suffix that fits. -/
theorem portConvert_short (h0 : (0 : UInt8) ∉ t) (hlen : t.length ≤ 96) :
    portConvert (k.short ++ t) =
      if k.guard <+: t then
        if k.middle <+: t then k.short ++ t.drop k.middle.length else k.short ++ t
      else (k.full ++ t).take 98 := by
  obtain ⟨hshort, -, -, -, hzero⟩ := k.spec
  have hshort0 : (0 : UInt8) ∉ k.short := fun h => hzero (List.mem_append_left _ h)
  have hp : snprintf 99 (k.short ++ t) = k.short ++ t := by
    apply snprintf_eq_self
    · simp [hshort0, h0]
    · rw [List.length_append]
      omega
  have hcut : snprintf 99 (k.full ++ t) = (k.full ++ t).take 98 := by
    rw [snprintf, cstr_eq_self (by simp [hzero, h0])]
  have hback : snprintf 99 (k.short ++ t.drop k.middle.length) =
      k.short ++ t.drop k.middle.length := by
    apply snprintf_eq_self
    · simp only [List.mem_append, not_or]
      exact ⟨hshort0, fun h => h0 (List.mem_of_mem_drop h)⟩
    · rw [List.length_append, List.length_drop]
      omega
  have hdrop : (k.short ++ t).drop k.full.length = t.drop k.middle.length := by
    rw [PortKind.full, List.length_append, ← List.drop_drop, List.drop_left]
  have hdrop2 : (k.short ++ t).drop 2 = t := by rw [← hshort, List.drop_left]
  have hfull : k.full <+: k.short ++ t ↔ k.middle <+: t := List.prefix_append_right_inj _
  rw [portConvert_of_short hp (List.prefix_append _ _)]
  simp only [List.prefix_append_right_inj, hfull, hdrop, hback, hdrop2, hcut]

/-! ## The two names of a port -/

/-- Of a suffix `x` the conversion sees 96 bytes behind the short name. -/
theorem portConvert_short_cut (k : PortKind) (x : Bytes) :
    portConvert (k.short ++ x) = portConvert (k.short ++ (cstr x).take 96) := by
  obtain ⟨hshort, -, -, -, hzero⟩ := k.spec
  have hcut : snprintf 99 (k.short ++ x) = k.short ++ (cstr x).take 96 := by
    rw [snprintf_append (fun h => hzero (List.mem_append_left _ h)) (by omega), hshort]
    rfl
  rw [← hcut]
  apply (portConvert_snprintf ?_).symm
  rw [hcut]
  intro hnil
  have hlen := congrArg List.length hnil
  rw [List.length_append, hshort, List.length_nil] at hlen
  omega

/-- The full name becomes the short one. -/
theorem portConvert_full (k : PortKind) (x : Bytes) :
    portConvert (k.full ++ x) = k.short ++ (cstr x).take (96 - k.middle.length) := by
  obtain ⟨hshort, hmin, hmax, hguard, hzero⟩ := k.spec
  have hmiddle0 : (0 : UInt8) ∉ k.middle := fun h => hzero (List.mem_append_right _ h)
  have hcstr : (cstr (k.middle ++ x)).take 96 =
      k.middle ++ (cstr x).take (96 - k.middle.length) := by
    rw [← show snprintf 97 (k.middle ++ x) = (cstr (k.middle ++ x)).take 96 from rfl,
      snprintf_append hmiddle0 (by omega), snprintf, Nat.sub_right_comm]
  rw [PortKind.full, List.append_assoc, portConvert_short_cut, hcstr, portConvert_short]
  · have hmid : k.middle <+: k.middle ++ (cstr x).take (96 - k.middle.length) :=
      List.prefix_append _ _
    rw [if_pos (hguard.trans hmid), if_pos hmid, List.drop_left]
  · simp only [List.mem_append, not_or]
    exact ⟨hmiddle0, fun h => zero_not_mem_cstr x (List.mem_of_mem_take h)⟩
  · rw [List.length_append, List.length_take]
    omega

/-- The short name and the full name of a port have one key everywhere. -/
structure PortKeys (k : PortKind) (x : Bytes) : Prop where
  /-- In accounting. -/
  accounting : accountingKey (k.short ++ x) = accountingKey (k.full ++ x)
  /-- In the polling by SNMP. -/
  snmp : portConvert (k.short ++ x) = portConvert (k.full ++ x)
  /-- In the one and in the other. -/
  same : accountingKey (k.short ++ x) = portConvert (k.short ++ x)
  accountingAgain : ∀ p ∈ [k.short ++ x, k.full ++ x],
    accountingKey (accountingKey p) = accountingKey p
  snmpAgain : ∀ p ∈ [k.short ++ x, k.full ++ x], portConvert (portConvert p) = portConvert p

/-- Only the front of the suffix is compared. -/
theorem isPrefix_take_iff {w : Bytes} {n : ℕ} (hw : w.length ≤ n) (y : Bytes) :
    w <+: y.take n ↔ w <+: y := by
  rw [List.prefix_take_iff]
  exact and_iff_left hw

/-- **The ports with one key**: behind the short name the first letters of what is left out, but
not all of it, and a suffix that the full name has room for. -/
theorem portKeys_kind_iff (k : PortKind) (x : Bytes) :
    PortKeys k x ↔ k.guard <+: cstr x ∧ ¬ k.middle <+: cstr x ∧
      (cstr x).length ≤ 96 - k.middle.length := by
  obtain ⟨hshort, hmin, hmax, hguard, -⟩ := k.spec
  have hguardlen := hguard.length_le
  have h0 : ∀ n, (0 : UInt8) ∉ (cstr x).take n := fun n h =>
    zero_not_mem_cstr x (List.mem_of_mem_take h)
  have hS := @portConvert_short k _ (h0 96) (List.length_take_le _ _)
  rw [← portConvert_short_cut] at hS
  simp only [isPrefix_take_iff (show k.guard.length ≤ 96 by omega),
    isPrefix_take_iff (show k.middle.length ≤ 96 by omega)] at hS
  have hF := portConvert_full k x
  constructor
  · intro h
    have hsnmp := h.snmp
    rw [hS, hF] at hsnmp
    split at hsnmp
    · next hg =>
      split at hsnmp
      · next hm =>
        -- the suffix would repeat itself, and a second conversion shortens it again
        have hagain := h.snmpAgain (k.full ++ x) (by simp)
        have hm' : k.middle <+: (cstr x).take (96 - k.middle.length) :=
          (isPrefix_take_iff (by omega) _).mpr hm
        rw [hF, portConvert_short (h0 _) ((List.length_take_le _ _).trans (by omega)),
          if_pos (hguard.trans hm'), if_pos hm'] at hagain
        have hlen := congrArg List.length (List.append_cancel_left hagain)
        have hle := hm'.length_le
        rw [List.length_drop] at hlen
        omega
      · next hm =>
        have hlen := congrArg List.length (List.append_cancel_left hsnmp)
        rw [List.length_take, List.length_take] at hlen
        exact ⟨hg, hm, by omega⟩
    · have hlen := congrArg List.length hsnmp
      rw [List.length_take, List.length_append, List.length_append, PortKind.full,
        List.length_append, List.length_take, List.length_take, hshort] at hlen
      omega
  · rintro ⟨hg, hm, hlen⟩
    have hshortKey : portConvert (k.short ++ x) = k.short ++ cstr x := by
      rw [hS, if_pos hg, if_neg hm, List.take_of_length_le (by omega)]
    have hfullKey : portConvert (k.full ++ x) = k.short ++ cstr x := by
      rw [hF, List.take_of_length_le hlen]
    have hkept : portConvert (k.short ++ cstr x) = k.short ++ cstr x := by
      rw [portConvert_short (zero_not_mem_cstr x) (by omega), if_pos hg, if_neg hm]
    constructor
    · rw [accountingKey, accountingKey, hshortKey, hfullKey]
    · rw [hshortKey, hfullKey]
    · rw [accountingKey, hshortKey, hkept]
    · intro p hp
      simp only [List.mem_cons, List.not_mem_nil, or_false] at hp
      rcases hp with rfl | rfl
      · rw [accountingKey, accountingKey, hshortKey, hkept, hkept, hkept]
      · rw [accountingKey, accountingKey, hfullKey, hkept, hkept, hkept]
    · intro p hp
      simp only [List.mem_cons, List.not_mem_nil, or_false] at hp
      rcases hp with rfl | rfl
      · rw [hshortKey, hkept]
      · rw [hfullKey, hkept]

/-- **Which suffixes have one key**, of either kind; none has of both. -/
theorem portKeys_iff (x : Bytes) :
    (PortKeys .async x ↔
      str "yn" <+: cstr x ∧ ¬ str "ync" <+: cstr x ∧ (cstr x).length ≤ 93) ∧
    (PortKeys .serial x ↔
      str "ri" <+: cstr x ∧ ¬ str "rial" <+: cstr x ∧ (cstr x).length ≤ 92) ∧
    ¬ (PortKeys .async x ∧ PortKeys .serial x) := by
  have hasync := portKeys_kind_iff .async x
  have hserial := portKeys_kind_iff .serial x
  have hlen : PortKind.async.middle.length = 3 ∧ PortKind.serial.middle.length = 4 := by
    decide +kernel
  rw [hlen.1] at hasync
  rw [hlen.2] at hserial
  refine ⟨hasync, hserial, ?_⟩
  rintro ⟨h, h'⟩
  have hyn := List.prefix_iff_eq_take.mp (hasync.mp h).1
  have hri := List.prefix_iff_eq_take.mp (hserial.mp h').1
  have hsame : PortKind.async.guard = PortKind.serial.guard := by
    have hglen : PortKind.async.guard.length = 2 ∧ PortKind.serial.guard.length = 2 := by
      decide +kernel
    rw [hyn, hri, hglen.1, hglen.2]
  exact absurd hsame (by decide +kernel)

/-- `As7` and `Async7`, and the serial port with number 0. -/
theorem portKeys_seven : ¬ PortKeys .async (str "7") ∧ ¬ PortKeys .serial (str "0") ∧
    portConvert (str "As7") = str "Async7" ∧ portConvert (str "Async7") = str "As7" ∧
    accountingKey (str "As7") ≠ accountingKey (str "Async7") := by
  refine ⟨fun h => ?_, fun h => ?_, by decide +kernel, by decide +kernel, by decide +kernel⟩
  · exact absurd h.snmp (by decide +kernel)
  · exact absurd h.snmp (by decide +kernel)

end Tacppd
