/-
# Leases in a history

A general development: the events of a history give keys out and take keys back.  A key
is held from the event that gives it to the first event that takes it.  A history is
exclusive when no key is given out while it is held.

Both are computed from the front of a history, one event at a time, so that they go
through an induction over runs (`mem_held_concat`, `exclusive_concat`), and a given history
can be checked (`exclusive_iff_fresh`).
-/
import Mathlib.Data.List.Basic
import Mathlib.Data.List.Induction

namespace Lease

variable {ε κ : Type*} [DecidableEq κ] (gives takes : ε → Option κ)

/-! ## The keys that are held -/

/-- One event more: what it takes is not held any longer, what it gives is. -/
def after (l : List κ) (x : ε) : List κ :=
  (gives x).toList ++ l.filter fun k => takes x ≠ some k

/-- The keys that are held after a history. -/
def held (h : List ε) : List κ := h.foldl (after gives takes) []

/-- No key is given out while it is held: between two events that give it there is one
that takes it. -/
def Exclusive (h : List ε) : Prop :=
  ∀ pre x mid y post k, h = pre ++ x :: mid ++ y :: post → gives x = some k →
    gives y = some k → ∃ z ∈ mid, takes z = some k

variable {gives takes}

@[simp] theorem held_nil : held gives takes ([] : List ε) = [] := rfl

theorem mem_held_concat {h : List ε} {x : ε} {k : κ} :
    k ∈ held gives takes (h ++ [x]) ↔
      gives x = some k ∨ k ∈ held gives takes h ∧ takes x ≠ some k := by
  simp [held, after]

/-- What is held was given out and not taken back since. -/
theorem mem_held_iff {h : List ε} {k : κ} :
    k ∈ held gives takes h ↔
      ∃ pre x mid, h = pre ++ x :: mid ∧ gives x = some k ∧ ∀ z ∈ mid, takes z ≠ some k := by
  induction h using List.reverseRecOn with
  | nil => simp
  | append_singleton h y ih =>
    rw [mem_held_concat, ih]
    constructor
    · rintro (hy | ⟨⟨pre, x, mid, rfl, hx, hmid⟩, hy⟩)
      · exact ⟨h, y, [], rfl, hy, by simp⟩
      · refine ⟨pre, x, mid ++ [y], by simp, hx, ?_⟩
        intro z hz
        rcases List.mem_append.mp hz with hz | hz
        · exact hmid z hz
        · rwa [List.mem_singleton.mp hz]
    · rintro ⟨pre, x, mid, hh, hx, hmid⟩
      rcases List.eq_nil_or_concat mid with rfl | ⟨mid, z, rfl⟩
      · -- the last event gives it
        obtain ⟨-, hxy⟩ := List.append_inj' hh rfl
        left
        rwa [(List.singleton_inj.mp hxy)]
      · right
        rw [List.concat_eq_append] at hh hmid
        have hh' : h ++ [y] = (pre ++ x :: mid) ++ [z] := by rw [hh]; simp
        obtain ⟨hpre, hyz⟩ := List.append_inj' hh' rfl
        obtain rfl := List.singleton_inj.mp hyz
        refine ⟨⟨pre, x, mid, hpre, hx, fun w hw => hmid w (List.mem_append_left _ hw)⟩, ?_⟩
        exact hmid y (by simp)

/-! ## Exclusive histories -/

omit [DecidableEq κ] in
theorem exclusive_nil : Exclusive gives takes ([] : List ε) := by
  intro pre x mid y post k hh
  simp at hh

/-- One event more must not give what is held. -/
theorem exclusive_concat {h : List ε} {y : ε} :
    Exclusive gives takes (h ++ [y]) ↔
      Exclusive gives takes h ∧ ∀ k, gives y = some k → k ∉ held gives takes h := by
  constructor
  · intro hex
    constructor
    · rintro pre x mid z post k rfl hx hz
      exact hex pre x mid z (post ++ [y]) k (by simp) hx hz
    · intro k hy hheld
      obtain ⟨pre, x, mid, rfl, hx, hmid⟩ := mem_held_iff.mp hheld
      obtain ⟨z, hz, htake⟩ := hex pre x mid y [] k rfl hx hy
      exact hmid z hz htake
  · rintro ⟨hex, hy⟩ pre x mid z post k hh hx hz
    rcases List.eq_nil_or_concat post with rfl | ⟨post, w, rfl⟩
    · -- the event that gives it again is the last one
      obtain ⟨rfl, hzy⟩ := List.append_inj' hh rfl
      obtain rfl := List.singleton_inj.mp hzy
      by_contra hnone
      refine hy k hz (mem_held_iff.mpr ⟨pre, x, mid, rfl, hx, ?_⟩)
      exact fun w hw htake => hnone ⟨w, hw, htake⟩
    · have hh' : h ++ [y] = (pre ++ x :: mid ++ z :: post) ++ [w] := by rw [hh]; simp
      exact hex pre x mid z post k (List.append_inj' hh' rfl).1 hx hz

/-! ## Checking a history -/

/-- The same, event by event from the front, with the keys held so far. -/
def Fresh (gives takes : ε → Option κ) (l : List κ) : List ε → Prop
  | [] => True
  | x :: h => (∀ k ∈ (gives x).toList, k ∉ l) ∧ Fresh gives takes (after gives takes l x) h

instance decidableFresh (l : List κ) (h : List ε) : Decidable (Fresh gives takes l h) :=
  match h with
  | [] => .isTrue trivial
  | x :: h =>
    have := decidableFresh (after gives takes l x) h
    inferInstanceAs (Decidable (_ ∧ _))

theorem fresh_concat {l : List κ} {h : List ε} {y : ε} :
    Fresh gives takes l (h ++ [y]) ↔
      Fresh gives takes l h ∧ ∀ k, gives y = some k → k ∉ h.foldl (after gives takes) l := by
  induction h generalizing l with
  | nil => simp [Fresh]
  | cons x h ih =>
    rw [List.cons_append, Fresh, ih, Fresh, List.foldl_cons, and_assoc]

theorem exclusive_iff_fresh {h : List ε} : Exclusive gives takes h ↔ Fresh gives takes [] h := by
  induction h using List.reverseRecOn with
  | nil => exact iff_of_true exclusive_nil trivial
  | append_singleton h y ih => rw [exclusive_concat, fresh_concat, ih, held]

instance (h : List ε) : Decidable (Exclusive gives takes h) :=
  decidable_of_iff _ exclusive_iff_fresh.symm

end Lease
