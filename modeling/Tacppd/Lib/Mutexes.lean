/-
# Threads that wait for mutexes

A general development: the steps of a machine belong to threads, and a step may begin with the
lock of a mutex, which is granted only while nobody has the mutex.  A thread that waits for a
mutex goes on with its lock, and nobody but its owner gives a mutex back.

Threads are deadlocked when each of them waits for a mutex that one of them has.  They never take
a step again, they keep their mutexes, and so no step that begins with the lock of one of these
is taken either (`Deadlocked.run`).
-/
import Mathlib.Data.Set.Insert
import Tacppd.Lib.Machine

/-- The threads `τ` and the mutexes `μ` of a machine, and what they do in the reached states. -/
structure Mutexes {σ α ε ζ : Type*} (m : Machine σ α ε ζ) (τ μ : Type*) where
  /-- The thread that takes the step. -/
  thread : α → τ
  /-- The mutex with the lock of which the step begins. -/
  asks : α → Option μ
  owner : σ → μ → Option τ
  /-- The mutex that the thread waits for. -/
  waits : σ → τ → Option μ
  granted {h : List (α × ε)} {s s' : σ} {a : α} {e : ε} {x : μ} (hr : m.Reaches h s)
    (hs : m.step s a = .ok (s', e)) (ha : asks a = some x) : owner s x = none
  waited {h : List (α × ε)} {s s' : σ} {a : α} {e : ε} {x : μ} (hr : m.Reaches h s)
    (hs : m.step s a = .ok (s', e)) (hx : waits s (thread a) = some x) : asks a = some x
  waits_frame {h : List (α × ε)} {s s' : σ} {a : α} {e : ε} {t : τ} (hr : m.Reaches h s)
    (hs : m.step s a = .ok (s', e)) (ht : t ≠ thread a) : waits s' t = waits s t
  owner_frame {h : List (α × ε)} {s s' : σ} {a : α} {e : ε} {t : τ} {x : μ} (hr : m.Reaches h s)
    (hs : m.step s a = .ok (s', e)) (ht : t ≠ thread a) (hx : owner s x = some t) :
    owner s' x = some t

namespace Mutexes

variable {σ α ε ζ τ μ : Type*} {m : Machine σ α ε ζ} {M : Mutexes m τ μ} {h : List (α × ε)}
  {s s' : σ} {a : α} {e : ε} {D : Set τ} {t : τ} {x : μ}

/-- Each of the threads waits for a mutex that one of them has. -/
def Deadlocked (M : Mutexes m τ μ) (s : σ) (D : Set τ) : Prop :=
  ∀ t ∈ D, ∃ x, M.waits s t = some x ∧ ∃ t' ∈ D, M.owner s x = some t'

/-- A thread that waits for a mutex that it has itself. -/
theorem deadlocked_singleton (hx : M.waits s t = some x) (ho : M.owner s x = some t) :
    M.Deadlocked s {t} := by
  rintro _ rfl
  exact ⟨x, hx, _, rfl, ho⟩

/-- A thread that waits for a mutex of theirs is deadlocked with them. -/
theorem Deadlocked.insert {t' : τ} (hD : M.Deadlocked s D) (hx : M.waits s t = some x)
    (ho : M.owner s x = some t') (ht' : t' ∈ D) : M.Deadlocked s (insert t D) := by
  rintro u (rfl | hu)
  · exact ⟨x, hx, t', Set.mem_insert_of_mem _ ht', ho⟩
  · obtain ⟨y, hy, t'', ht'', ho'⟩ := hD u hu
    exact ⟨y, hy, t'', Set.mem_insert_of_mem _ ht'', ho'⟩

theorem Deadlocked.not_mem (hD : M.Deadlocked s D) (hr : m.Reaches h s)
    (hs : m.step s a = .ok (s', e)) : M.thread a ∉ D := by
  intro hmem
  obtain ⟨x, hx, t', -, ho⟩ := hD _ hmem
  exact absurd (ho.symm.trans (M.granted hr hs (M.waited hr hs hx))) nofun

/-- The others take a step: nothing changes for the deadlocked threads. -/
theorem Deadlocked.step (hD : M.Deadlocked s D) (hr : m.Reaches h s)
    (hs : m.step s a = .ok (s', e)) : M.Deadlocked s' D := by
  have hother : ∀ u ∈ D, u ≠ M.thread a := fun u hu heq => hD.not_mem hr hs (heq ▸ hu)
  intro u hu
  obtain ⟨x, hx, t', ht', ho⟩ := hD u hu
  exact ⟨x, (M.waits_frame hr hs (hother u hu)).trans hx, t', ht',
    M.owner_frame hr hs (hother t' ht') ho⟩

/-- **Deadlocked threads** take no step in any run that goes on from there, they keep their
mutexes, and nobody gets one of these. -/
theorem Deadlocked.run {pre post : List (α × ε)} (hD : M.Deadlocked s D) (hpre : m.Reaches pre s)
    (hr : m.Reaches (pre ++ post) s') : M.Deadlocked s' D ∧
      (∀ x, ∀ t ∈ D, M.owner s x = some t → M.owner s' x = some t) ∧
      ∀ y ∈ post, M.thread y.1 ∉ D ∧
        ∀ x, ∀ t ∈ D, M.owner s x = some t → M.asks y.1 ≠ some x := by
  refine hpre.segment m (I := fun mid s' => M.Deadlocked s' D ∧
    (∀ x, ∀ t ∈ D, M.owner s x = some t → M.owner s' x = some t) ∧
      ∀ y ∈ mid, M.thread y.1 ∉ D ∧
        ∀ x, ∀ t ∈ D, M.owner s x = some t → M.asks y.1 ≠ some x) ⟨hD, ?_, by simp⟩ ?_ hr
  · exact fun x t _ ho => ho
  · rintro mid s₁ a s₂ e hmid ⟨hD₁, howner, hsteps⟩ hs
    refine ⟨hD₁.step hmid hs, fun x t ht ho => ?_, ?_⟩
    · exact M.owner_frame hmid hs (fun heq => hD₁.not_mem hmid hs (heq ▸ ht)) (howner x t ht ho)
    · intro y hy
      rcases List.mem_append.mp hy with hy | hy
      · exact hsteps y hy
      · rw [List.mem_singleton.mp hy]
        refine ⟨hD₁.not_mem hmid hs, fun x t ht ho ha => ?_⟩
        exact absurd ((howner x t ht ho).symm.trans (M.granted hmid hs ha)) nofun

end Mutexes
