/-
# One pass of the NetFlow sweep

The body of `while(true)` in `NfAggregator::expire`: three loops with iterators, over the
devices, their sources and the leaves of these.  A device without sources and a source without
leaves are erased when the loop comes to them.  Then the iterator is set to `begin()`, and
`continue` increments it: behind the end, where the erased entry was the only one.

`sweep_iff` says for which contents of the map the pass ends, uses no iterator behind its end, and
leaves no expired leaf.
-/
import Tacppd.Lib.Rescan
import Tacppd.NetFlow

namespace Tacppd

open Rescan

variable {w : ℕ} (expireTime now : ℤ)

/-! ## The loops -/

/-- With `now` for `time(0)`. -/
def NfData.isExpired (n : NfData w) : Bool :=
  if n.stopt - n.startt > expireTime then true
  else if now - n.stopt > expireTime then true
  else if now - n.startt > expireTime * 2 then true
  else false

/-- Entries of the three maps, which are lists in the order of the iterators.  The pointer to a
leaf may be null. -/
abbrev LeafEntry (w : ℕ) := Bit32 w × Option (NfData w)

abbrev SourceEntry (w : ℕ) := Bit32 w × List (LeafEntry w)

abbrev DeviceEntry (w : ℕ) := Bit32 w × List (SourceEntry w)

/-- The loop of `p3`.  What is passed on of a leaf that goes says `NetFlow.expire`. -/
def sweepLeaves : List (LeafEntry w) → List (LeafEntry w)
  | [] => []
  | p3 :: rest =>
    match p3.2 with
    | none => p3 :: sweepLeaves rest
    | some tmp =>
      if tmp.isExpired expireTime now then sweepLeaves rest else p3 :: sweepLeaves rest

/-- The loop of `p2`; `none` when an iterator is incremented behind its end. -/
def sweepSources (p1 : List (SourceEntry w)) : Option (List (SourceEntry w)) :=
  pass (fun p2 => p2.2.length = 0) (fun p2 => some (p2.1, sweepLeaves expireTime now p2.2)) [] p1

/-- The loop of `p1`. -/
def sweepDevices (nfb : List (DeviceEntry w)) : Option (List (DeviceEntry w)) :=
  pass (fun p1 => p1.2.length = 0)
    (fun p1 => (sweepSources expireTime now p1.2).map fun p => (p1.1, p)) [] nfb

/-! ## What the pass needs -/

/-- The leaf is expired. -/
def LeafEntry.Expired (p3 : LeafEntry w) : Prop :=
  ∃ tmp, p3.2 = some tmp ∧ tmp.isExpired expireTime now

instance (p3 : LeafEntry w) : Decidable (p3.Expired expireTime now) :=
  decidable_of_iff (p3.2.any fun tmp => tmp.isExpired expireTime now) (by
    rw [Option.any_eq_true, LeafEntry.Expired])

/-- No leaf of the source is expired. -/
def SourceEntry.Fresh (p2 : SourceEntry w) : Prop := ∀ p3 ∈ p2.2, ¬ p3.Expired expireTime now

/-- Some leaf of the source is not expired, so the source stays. -/
def SourceEntry.Stays (p2 : SourceEntry w) : Prop := ∃ p3 ∈ p2.2, ¬ p3.Expired expireTime now

/-- No source stays, and the last one is without leaves: one loop erases all of them. -/
def Vanish (p1 : List (SourceEntry w)) : Prop :=
  (∀ p2 ∈ p1, ¬ p2.Stays expireTime now) ∧ ∀ p2 ∈ p1.getLast?, p2.2 = []

/-- What a device needs for a number of visits.

One visit: if the first source has no leaves, a second one is there, which is not visited and
must have no expired leaf.

Two visits: behind the source that is the first one after the visit something must be left, if that
source has no leaves then.

Three and more: some source must stay. -/
def DeviceOk : ℕ → DeviceEntry w → Prop
  | 0, p1 => ∀ p2 ∈ p1.2, p2.Fresh expireTime now
  | 1, p1 => ∃ p2 rest, p1.2 = p2 :: rest ∧
      (p2.2 = [] → ∃ q2 rest', rest = q2 :: rest' ∧ q2.Fresh expireTime now)
  | 2, p1 => ∃ p2 rest, p1.2 = p2 :: rest ∧
      if p2.2 = [] then
        ∃ q2 rest', rest = q2 :: rest' ∧ (q2.2 = [] → ¬ Vanish expireTime now rest')
      else ¬ p2.Stays expireTime now → ¬ Vanish expireTime now rest
  | _ + 3, p1 => ∃ p2 ∈ p1.2, p2.Stays expireTime now

/-- What the map needs for a pass: a device is visited once more for every device without
sources that is behind it, the first one just once. -/
def SweepOk (nfb : List (DeviceEntry w)) : Prop :=
  PassOk (fun p1 => p1.2.length = 0) (DeviceOk expireTime now)
    (fun p1 => ∀ p2 ∈ p1.2, p2.Fresh expireTime now) nfb

/-! ## The leaves of a source -/

section

variable {expireTime now}

theorem sweepLeaves_eq_filter (l : List (LeafEntry w)) :
    sweepLeaves expireTime now l = l.filter fun p3 => ¬ p3.Expired expireTime now := by
  induction l with
  | nil => rfl
  | cons p3 l ih =>
    rw [sweepLeaves]
    split
    · next h => simp [LeafEntry.Expired, h, ih]
    · next tmp h =>
      by_cases ht : tmp.isExpired expireTime now <;> simp [LeafEntry.Expired, h, ih, ht]

end

/-- The source after the loop over its leaves. -/
def SourceEntry.swept (p2 : SourceEntry w) : SourceEntry w :=
  (p2.1, sweepLeaves expireTime now p2.2)

section

variable {expireTime now}

/-- A source without leaves. -/
abbrev SourceEntry.Bare (p2 : SourceEntry w) : Prop := p2.2.length = 0

theorem bare_swept_iff (p2 : SourceEntry w) :
    (p2.swept expireTime now).Bare ↔ ¬ p2.Stays expireTime now := by
  unfold SourceEntry.Stays
  show (sweepLeaves expireTime now p2.2).length = 0 ↔ _
  rw [List.length_eq_zero_iff, sweepLeaves_eq_filter, List.filter_eq_nil_iff]
  simp

theorem swept_eq_self_iff (p2 : SourceEntry w) :
    p2.swept expireTime now = p2 ↔ p2.Fresh expireTime now := by
  unfold SourceEntry.Fresh
  show (p2.1, sweepLeaves expireTime now p2.2) = (p2.1, p2.2) ↔ _
  rw [Prod.mk.injEq, and_iff_right rfl, sweepLeaves_eq_filter, List.filter_eq_self]
  simp

theorem swept_swept (p2 : SourceEntry w) :
    (p2.swept expireTime now).swept expireTime now = p2.swept expireTime now := by
  rw [swept_eq_self_iff]
  intro p3 hp3
  have hmem : p3 ∈ sweepLeaves expireTime now p2.2 := hp3
  rw [sweepLeaves_eq_filter, List.mem_filter] at hmem
  simpa using hmem.2

theorem bare_swept_of_bare (p2 : SourceEntry w) (h : p2.Bare) : (p2.swept expireTime now).Bare := by
  rw [bare_swept_iff]
  rintro ⟨p3, hp3, -⟩
  rw [List.length_eq_zero_iff.mp h] at hp3
  contradiction

/-! ## The visits of a device -/

theorem sweepSources_eq (p1 : List (SourceEntry w)) :
    sweepSources expireTime now p1 =
      pass SourceEntry.Bare (fun p2 => some (p2.swept expireTime now)) [] p1 := rfl

/-- A device keeps a source. -/
theorem sweepSources_ne_nil {p1 r : List (SourceEntry w)} (hne : p1 ≠ [])
    (h : sweepSources expireTime now p1 = some r) : r ≠ [] := by
  rw [sweepSources_eq] at h
  cases p1 with
  | nil => contradiction
  | cons p2 rest =>
    by_cases hp2 : p2.Bare
    · cases rest with
      | nil =>
        rw [pass_only hp2] at h
        contradiction
      | cons q2 rest =>
        rw [pass_cons_cons swept_swept hp2] at h
        rw [← Option.some.inj h]
        exact List.cons_ne_nil _ _
    · rw [pass_cons swept_swept hp2] at h
      rw [← Option.some.inj h]
      exact List.cons_ne_nil _ _

/-- The device stays under its key. -/
theorem visits_sweepSources (k : ℕ) (p1 : DeviceEntry w) :
    visits (fun p1 => (sweepSources expireTime now p1.2).map fun p => (p1.1, p)) k p1 =
      (visits (sweepSources expireTime now) k p1.2).map fun p => (p1.1, p) := by
  induction k generalizing p1 with
  | zero => rfl
  | succ k ih =>
    rw [visits, visits]
    cases sweepSources expireTime now p1.2 with
    | none => rfl
    | some p => exact ih (p1.1, p)

theorem gone_iff_vanish (p1 : List (SourceEntry w)) :
    Gone SourceEntry.Bare (SourceEntry.swept expireTime now) p1 ↔ Vanish expireTime now p1 := by
  unfold Gone Vanish
  apply and_congr
  · simp only [bare_swept_iff]
  · simp only [List.length_eq_zero_iff]

/-- **The visits of a device with sources.** -/
theorem settles_iff_deviceOk {p1 : DeviceEntry w} (hne : p1.2 ≠ []) (k : ℕ) :
    Settles SourceEntry.Bare (SourceEntry.swept expireTime now) (k + 1) p1.2 ↔
      DeviceOk expireTime now (k + 1) p1 := by
  obtain ⟨d, p⟩ := p1
  cases p with
  | nil => contradiction
  | cons p2 rest =>
    match k with
    | 0 =>
      rw [settles_one_iff swept_swept, DeviceOk]
      simp only [swept_eq_self_iff, List.length_eq_zero_iff]
      simp
    | 1 =>
      rw [settles_two_iff swept_swept bare_swept_of_bare, DeviceOk]
      simp only [bare_swept_iff, gone_iff_vanish]
      simp
    | k + 2 =>
      rw [settles_add_three_iff swept_swept bare_swept_of_bare hne, DeviceOk]
      simp only [bare_swept_iff, not_not]

/-- **The expiry sweep**: for which contents one pass ends without an iterator behind its end, and
leaves no leaf that is expired. -/
theorem sweep_iff (expireTime now : ℤ) (nfb : List (DeviceEntry w)) :
    (∃ r, sweepDevices expireTime now nfb = some r ∧
      ∀ p1 ∈ r, ∀ p2 ∈ p1.2, ∀ p3 ∈ p2.2, ¬ p3.Expired expireTime now) ↔
      SweepOk expireTime now nfb := by
  have hkeep : ∀ p1 p1' : DeviceEntry w, ¬ p1.2.length = 0 →
      ((sweepSources expireTime now p1.2).map fun p => (p1.1, p)) = some p1' →
      ¬ p1'.2.length = 0 := by
    intro p1 p1' hne h
    obtain ⟨p, hp, rfl⟩ := Option.map_eq_some_iff.mp h
    rw [List.length_eq_zero_iff] at hne ⊢
    exact sweepSources_ne_nil hne hp
  unfold sweepDevices SweepOk
  apply (pass_good_iff hkeep (fun p1 => ∀ p2 ∈ p1.2, p2.Fresh expireTime now) nfb).trans
  apply passOk_congr
  · intro k p1 hne
    rw [← settles_iff_deviceOk (by rwa [List.length_eq_zero_iff] at hne), visits_sweepSources]
    simp only [Option.map_eq_some_iff, Settles, swept_eq_self_iff]
    constructor
    · rintro ⟨_, ⟨p, hp, rfl⟩, hfresh⟩
      exact ⟨p, hp, hfresh⟩
    · rintro ⟨p, hp, hfresh⟩
      exact ⟨(p1.1, p), ⟨p, hp, rfl⟩, hfresh⟩
  · intro p1
    rfl

/-- A device with one source and one leaf, which is expired: the first pass takes the leaf, and the
second one increments the iterator of the sources behind its end. -/
theorem sweep_stops :
    sweepDevices 900 5000 [((1, [(2, [(3, some ⟨10, 1, 7, 100, 200⟩)])]) : DeviceEntry 32)] =
        some [(1, [(2, [])])] ∧
      sweepDevices 900 5000 [((1, [(2, [])]) : DeviceEntry 32)] = none := by
  constructor
  · unfold sweepDevices
    rw [pass_visit (by decide) (h := ?_), pass_nil]
    · rfl
    · rw [sweepSources_eq, pass_cons swept_swept (by decide)]
      rfl
  · unfold sweepDevices
    rw [pass_stop (by decide)]
    rw [sweepSources_eq, pass_only (by decide)]
    rfl

end

end Tacppd
