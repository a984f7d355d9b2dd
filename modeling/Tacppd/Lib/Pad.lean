/-
# Stream pads laid over lists

A general development: a pad gives a value for every position, and `overlay`
combines a list with it position by position.  `overlayRange` does so on a
window of positions only, which is what a loop over an index has done so far;
windows compose.  The second half is about pads that are produced block by
block, each block computed from the one before it.
-/
import Mathlib.Data.List.Basic

namespace Pad

variable {α β δ : Type*} (op : α → β → α) (pad : ℕ → β)

/-! ## Overlays -/

/-- Combine every element of a list with the pad at its position. -/
def overlay (d : List α) : List α := d.mapIdx fun i a => op a (pad i)

/-- Combine the elements at the positions `lo ≤ i < hi` with the pad. -/
def overlayRange (lo hi : ℕ) (d : List α) : List α :=
  d.mapIdx fun i a => if lo ≤ i ∧ i < hi then op a (pad i) else a

@[simp] theorem length_overlay (d : List α) : (overlay op pad d).length = d.length := by
  simp [overlay]

@[simp] theorem length_overlayRange (lo hi : ℕ) (d : List α) :
    (overlayRange op pad lo hi d).length = d.length := by
  simp [overlayRange]

theorem getElem?_overlay (d : List α) (i : ℕ) :
    (overlay op pad d)[i]? = d[i]?.map (op · (pad i)) := by
  simp [overlay, List.getElem?_mapIdx]

/-- **Overlaying twice** with an operation that undoes itself gives the list back. -/
theorem overlay_overlay (hop : ∀ a b, op (op a b) b = a) (d : List α) :
    overlay op pad (overlay op pad d) = d := by
  apply List.ext_getElem?
  intro i
  rw [getElem?_overlay, getElem?_overlay]
  cases d[i]? with
  | none => rfl
  | some a => simp [hop]

/-- An empty window changes nothing. -/
theorem overlayRange_of_le {lo hi : ℕ} (h : hi ≤ lo) (d : List α) :
    overlayRange op pad lo hi d = d := by
  apply List.ext_getElem
  · simp
  · intro i _ _
    have : ¬ (lo ≤ i ∧ i < hi) := by omega
    simp [overlayRange, this]

/-- A window of one position is a single write. -/
theorem overlayRange_succ_self (i : ℕ) (d : List α) :
    overlayRange op pad i (i + 1) d = d.modify i (op · (pad i)) := by
  apply List.ext_getElem
  · simp
  · intro k _ _
    rw [List.getElem_modify]
    by_cases hk : i = k
    · subst hk
      simp [overlayRange]
    · have hout : ¬ (i ≤ k ∧ k < i + 1) := by omega
      simp only [overlayRange, List.getElem_mapIdx, if_neg hout, if_neg hk]

/-- **Adjacent windows compose.** -/
theorem overlayRange_trans {lo mid hi : ℕ} (h1 : lo ≤ mid) (h2 : mid ≤ hi) (d : List α) :
    overlayRange op pad mid hi (overlayRange op pad lo mid d) = overlayRange op pad lo hi d := by
  apply List.ext_getElem
  · simp
  · intro i _ _
    simp only [overlayRange, List.getElem_mapIdx]
    by_cases hlo : lo ≤ i ∧ i < mid
    · rw [if_pos hlo, if_neg (by omega), if_pos (by omega)]
    · by_cases hmid : mid ≤ i ∧ i < hi
      · rw [if_neg hlo, if_pos hmid, if_pos (by omega)]
      · rw [if_neg hlo, if_neg hmid, if_neg (by omega)]

/-- The window of all positions is the overlay. -/
theorem overlayRange_length (d : List α) :
    overlayRange op pad 0 d.length d = overlay op pad d := by
  apply List.ext_getElem
  · simp
  · intro i hi _
    have hlt : i < d.length := by simpa using hi
    simp [overlayRange, overlay, hlt]

/-! ## Chained blocks -/

/-- Block `n` of a chain: the first block comes from nothing, every later one
from the block before it. -/
def chain (f : Option δ → δ) : ℕ → δ
  | 0 => f none
  | n + 1 => f (some (chain f n))

/-- What block `n` is computed from. -/
def chainPrev (f : Option δ → δ) : ℕ → Option δ
  | 0 => none
  | n + 1 => some (chain f n)

theorem chain_eq (f : Option δ → δ) (n : ℕ) : chain f n = f (chainPrev f n) := by
  cases n <;> rfl

@[simp] theorem chainPrev_succ (f : Option δ → δ) (n : ℕ) :
    chainPrev f (n + 1) = some (chain f n) := rfl

/-- The pad of a chain of blocks with `w` values each. -/
def blockPad (w : ℕ) (get : δ → ℕ → β) (f : Option δ → δ) (i : ℕ) : β :=
  get (chain f (i / w)) (i % w)

/-- Inside block `n` the pad is block `n`. -/
theorem blockPad_add {w : ℕ} (get : δ → ℕ → β) (f : Option δ → δ) (n : ℕ) {j : ℕ} (hj : j < w) :
    blockPad w get f (w * n + j) = get (chain f n) j := by
  have hw : 0 < w := by omega
  rw [blockPad, Nat.mul_add_div hw, Nat.div_eq_of_lt hj, Nat.add_zero, Nat.mul_add_mod,
    Nat.mod_eq_of_lt hj]

end Pad
