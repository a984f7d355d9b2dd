/-
# Loops that may not end

A general development: a loop is given by what one round makes of its state, another state or
the result.  A round may hold loops of its own, so it has the bound on the number of rounds
as an argument, and gives nothing when one of them does not end in as many.

A loop ends when some number of rounds is enough.  The rules below take an end apart into
rounds and put one together from them, so that nothing above has to count.
-/
import Mathlib.Data.Nat.Notation
import Mathlib.Tactic.TypeStar

namespace Loops

variable {σ ρ : Type*} (round : ℕ → σ → Option (σ ⊕ ρ))

/-- The loop, with a bound on the number of its rounds. -/
def run : ℕ → σ → Option ρ
  | 0, _ => none
  | n + 1, s =>
    match round n s with
    | none => none
    | some (.inr r) => some r
    | some (.inl s') => run n s'

/-- More rounds do not change a result. -/
def Grows {α β : Type*} (f : ℕ → α → Option β) : Prop :=
  ∀ n a b, f n a = some b → f (n + 1) a = some b

/-- There is a result for some bound. -/
def Gives {α β : Type*} (f : ℕ → α → Option β) (a : α) (b : β) : Prop := ∃ n, f n a = some b

section

variable {α β γ : Type*} {f : ℕ → α → Option β}

theorem Grows.le (hf : Grows f) {m n : ℕ} (hmn : m ≤ n) {a : α} {b : β} (h : f m a = some b) :
    f n a = some b := by
  induction hmn with
  | refl => exact h
  | step _ ih => exact hf _ _ _ ih

/-- A result that is changed afterwards. -/
theorem Grows.map (hf : Grows f) (g : α → β → γ) :
    Grows fun n a => (f n a).map (g a) := by
  intro n a c h
  obtain ⟨b, hb, rfl⟩ := Option.map_eq_some_iff.mp h
  show (f (n + 1) a).map (g a) = _
  rw [hf n a b hb, Option.map_some]

theorem gives_map_iff {g : α → β → γ} {a : α} {c : γ} :
    Gives (fun n a => (f n a).map (g a)) a c ↔ ∃ b, Gives f a b ∧ g a b = c := by
  constructor
  · rintro ⟨n, h⟩
    obtain ⟨b, hb, hc⟩ := Option.map_eq_some_iff.mp h
    exact ⟨b, ⟨n, hb⟩, hc⟩
  · rintro ⟨b, ⟨n, hb⟩, rfl⟩
    exact ⟨n, Option.map_eq_some_iff.mpr ⟨b, hb, rfl⟩⟩

end

variable {round}

theorem grows_run (hround : Grows round) : Grows (run round) := by
  intro n
  induction n with
  | zero =>
    intro s r h
    contradiction
  | succ n ih =>
    intro s r h
    unfold run at h ⊢
    split at h
    · contradiction
    · next r' heq =>
      rw [hround n s _ heq]
      exact h
    · next s' heq =>
      rw [hround n s _ heq]
      exact ih s' r h

/-- The last round. -/
theorem gives_run_done {s : σ} {r : ρ} (h : Gives round s (.inr r)) : Gives (run round) s r := by
  obtain ⟨n, hn⟩ := h
  refine ⟨n + 1, ?_⟩
  unfold run
  rw [hn]

/-- One round more in front. -/
theorem gives_run_next (hround : Grows round) {s s' : σ} {r : ρ} (h : Gives round s (.inl s'))
    (hrest : Gives (run round) s' r) : Gives (run round) s r := by
  obtain ⟨n, hn⟩ := h
  obtain ⟨m, hm⟩ := hrest
  refine ⟨max n m + 1, ?_⟩
  unfold run
  rw [hround.le (Nat.le_max_left n m) hn]
  exact (grows_run hround).le (Nat.le_max_right n m) hm

/-- **The rounds of a loop that ends.** -/
theorem gives_run_induction {P : σ → ρ → Prop}
    (hdone : ∀ s r, Gives round s (.inr r) → P s r)
    (hnext : ∀ s s' r, Gives round s (.inl s') → P s' r → P s r)
    {s : σ} {r : ρ} (h : Gives (run round) s r) : P s r := by
  obtain ⟨n, hn⟩ := h
  induction n generalizing s with
  | zero => contradiction
  | succ n ih =>
    unfold run at hn
    split at hn
    · contradiction
    · next r' heq =>
      obtain rfl := Option.some.inj hn
      exact hdone s r' ⟨n, heq⟩
    · next s' heq => exact hnext s s' r ⟨n, heq⟩ (ih hn)

end Loops
