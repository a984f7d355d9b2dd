/-
# Machines that share one stream of inputs

A general development: there is a machine for each key, every input belongs to one
key, and all the inputs come in one stream.  The multiplexed machine keeps a state
for each key and plays an input on the state of its key.

What one key sees of a run is a run of its own machine (`Reaches.project`), so what
its machine answers does not depend on the inputs in between.
-/
import Mathlib.Data.List.Basic
import Mathlib.Logic.Function.Basic
import Tacppd.Lib.Machine

namespace Machine

variable {κ σ α ε ζ : Type*} [DecidableEq κ] (m : κ → Machine σ α ε ζ) (keyOf : α → κ)

/-- All machines side by side; an input is for the machine of its key. -/
def multiplex (m : κ → Machine σ α ε ζ) (keyOf : α → κ) : Machine (κ → σ) α ε ζ where
  init k := (m k).init
  step f a :=
    match (m (keyOf a)).step (f (keyOf a)) a with
    | .error z => .error z
    | .ok (s, e) => .ok (Function.update f (keyOf a) s, e)

/-- The recorded steps of one key. -/
def ofKey (k : κ) (h : List (α × ε)) : List (α × ε) := h.filter fun x => decide (keyOf x.1 = k)

theorem map_ofKey (k : κ) (h : List (α × ε)) :
    (ofKey keyOf k h).map Prod.fst = (h.map Prod.fst).filter fun a => decide (keyOf a = k) := by
  rw [ofKey, List.filter_map]
  rfl

/-- What a step of the multiplexed machine is: a step of one machine, and the states of
the other keys stay. -/
theorem multiplex_step_ok {f f' : κ → σ} {a : α} {e : ε}
    (h : (multiplex m keyOf).step f a = .ok (f', e)) :
    ∃ s, (m (keyOf a)).step (f (keyOf a)) a = .ok (s, e) ∧ f' = Function.update f (keyOf a) s := by
  simp only [multiplex] at h
  split at h
  · contradiction
  · next s e' hs =>
    obtain ⟨hf, he⟩ := Prod.mk.inj (Except.ok.inj h)
    exact ⟨s, by rw [hs, he], hf.symm⟩

/-- **What one key sees of a run is a run of its own machine.** -/
theorem Reaches.project {h : List (α × ε)} {f : κ → σ} (hr : (multiplex m keyOf).Reaches h f)
    (k : κ) : (m k).Reaches (ofKey keyOf k h) (f k) := by
  induction hr with
  | init => exact .init
  | @step h f f' a e hr hs ih =>
    obtain ⟨s, hstep, rfl⟩ := multiplex_step_ok m keyOf hs
    rw [ofKey, List.filter_append]
    by_cases hk : keyOf a = k
    · -- an input of the key: its machine takes the step
      subst hk
      rw [List.filter_singleton, decide_eq_true rfl, Function.update_self]
      exact ih.step hstep
    · rw [List.filter_singleton, decide_eq_false hk, Function.update_of_ne (Ne.symm hk)]
      simpa [ofKey] using ih

/-- **Isolation.**  The outputs for the inputs of one key are those of its own machine
when these inputs come alone. -/
theorem Reaches.isolated {h : List (α × ε)} {f : κ → σ} (hr : (multiplex m keyOf).Reaches h f)
    (k : κ) :
    (m k).history ((h.map Prod.fst).filter fun a => decide (keyOf a = k)) = ofKey keyOf k h := by
  rw [← map_ofKey]
  exact (hr.project m keyOf k).history_eq

/-! ## A table of states

An implementation keeps the states in a list, each with its key, and enters a new state
with the first input of a key.  A key is looked up from the front. -/

/-- Replace the state of a key. -/
def tableSet (k : κ) (s : σ) : List (κ × σ) → List (κ × σ)
  | [] => []
  | (k', s') :: rest => if k' = k then (k', s) :: rest else (k', s') :: tableSet k s rest

/-- The state a table stands for: a key that is not in it has not started. -/
def tableState (m : κ → Machine σ α ε ζ) (q : List (κ × σ)) (k : κ) : σ :=
  (q.lookup k).getD (m k).init

theorem lookup_cons_of_ne {k k₁ : κ} (h : k ≠ k₁) (s₁ : σ) (q : List (κ × σ)) :
    ((k₁, s₁) :: q).lookup k = q.lookup k := by
  rw [List.lookup_cons, beq_false_of_ne h]

theorem lookup_tableSet (k : κ) (s : σ) (q : List (κ × σ)) (k' : κ) :
    (tableSet k s q).lookup k' =
      if k' = k ∧ (q.lookup k).isSome = true then some s else q.lookup k' := by
  induction q with
  | nil => simp [tableSet]
  | cons x q ih =>
    obtain ⟨k₁, s₁⟩ := x
    rw [tableSet]
    by_cases hk₁ : k₁ = k
    · -- the key is found here
      subst hk₁
      by_cases hk' : k' = k₁
      · simp [hk']
      · rw [if_pos rfl, lookup_cons_of_ne hk', lookup_cons_of_ne hk', if_neg (fun h => hk' h.1)]
    · rw [if_neg hk₁, lookup_cons_of_ne (Ne.symm hk₁)]
      by_cases hk' : k' = k₁
      · subst hk'
        simp [hk₁]
      · rw [lookup_cons_of_ne hk', lookup_cons_of_ne hk', ih]

/-- Entering a state that has not started does not change what the table stands for. -/
theorem tableState_append_init {k : κ} {q : List (κ × σ)} (hk : q.lookup k = none) :
    tableState m (q ++ [(k, (m k).init)]) = tableState m q := by
  funext k'
  rw [tableState, tableState, List.lookup_append]
  by_cases hk' : k' = k
  · subst hk'
    rw [hk]
    simp
  · have hnone : [(k, (m k).init)].lookup k' = none := by
      simp [hk']
    rw [hnone, Option.or_none]

/-- Replacing the state of a key that is in the table. -/
theorem tableState_set {k : κ} {q : List (κ × σ)} (hk : (q.lookup k).isSome = true) (s : σ) :
    tableState m (tableSet k s q) = Function.update (tableState m q) k s := by
  funext k'
  rw [tableState, lookup_tableSet]
  by_cases hk' : k' = k
  · subst hk'
    rw [if_pos ⟨rfl, hk⟩, Function.update_self]
    rfl
  · rw [if_neg (fun h => hk' h.1), Function.update_of_ne hk']
    rfl

end Machine
