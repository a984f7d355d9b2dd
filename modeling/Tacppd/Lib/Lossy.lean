/-
# Messages through a channel that loses some

A general development: messages go into a channel that keeps their order, and each of them is
delivered or lost when it comes to the end.  What a reader has got is determined by the messages
that were sent and by the fates of the first ones.

A reader that keeps what the last message about a thing said depends on this message alone
(`view_of_delivered`, `view_of_pending`).
-/
import Mathlib.Data.List.Basic
import Mathlib.Data.List.Induction

namespace Lossy

variable {α : Type*}

/-- The messages that were delivered. -/
def received : List α → List Bool → List α
  | a :: sent, true :: fates => a :: received sent fates
  | _ :: sent, false :: fates => received sent fates
  | _, _ => []

/-- The messages that are still on their way. -/
def pending (sent : List α) (fates : List Bool) : List α := sent.drop fates.length

variable {sent rest : List α} {fates : List Bool} {a : α}

@[simp] theorem received_nil_fates (sent : List α) : received sent [] = [] := by
  cases sent <;> rfl

/-! ## Steps of the channel -/

/-- A message more is behind those that have a fate. -/
theorem received_append (h : fates.length ≤ sent.length) (more : List α) :
    received (sent ++ more) fates = received sent fates := by
  induction sent generalizing fates with
  | nil =>
    obtain rfl := List.length_eq_zero_iff.mp (Nat.le_zero.mp h)
    simp
  | cons a sent ih =>
    cases fates with
    | nil => simp
    | cons f fates =>
      have hrest := @ih fates (Nat.le_of_succ_le_succ h)
      cases f with
      | true => rw [List.cons_append, received, received, hrest]
      | false => rw [List.cons_append, received, received, hrest]

theorem pending_append (h : fates.length ≤ sent.length) (more : List α) :
    pending (sent ++ more) fates = pending sent fates ++ more := List.drop_append_of_le_length h

/-- The first message on its way comes to the end. -/
theorem received_concat (h : pending sent fates = a :: rest) (f : Bool) :
    received sent (fates ++ [f]) = received sent fates ++ if f then [a] else [] := by
  induction sent generalizing fates with
  | nil => simp [pending] at h
  | cons b sent ih =>
    cases fates with
    | nil =>
      obtain ⟨rfl, rfl⟩ := List.cons.inj h
      cases f with
      | true => simp [received]
      | false => simp [received]
    | cons g fates =>
      have hrest := @ih fates h
      cases g with
      | true => rw [List.cons_append, received, received, hrest, List.cons_append]
      | false => rw [List.cons_append, received, received, hrest]

theorem pending_concat (h : pending sent fates = a :: rest) (f : Bool) :
    pending sent (fates ++ [f]) = rest := by
  rw [pending, List.length_append, List.length_singleton, ← List.drop_drop, ← pending, h]
  rfl

theorem length_lt_of_pending (h : pending sent fates = a :: rest) : fates.length < sent.length := by
  by_contra hle
  rw [pending, List.drop_eq_nil_of_le (Nat.le_of_not_lt hle)] at h
  contradiction

theorem mem_of_mem_received {x : α} (h : x ∈ received sent fates) : x ∈ sent := by
  induction sent generalizing fates with
  | nil => cases fates <;> simp [received] at h
  | cons a sent ih =>
    cases fates with
    | nil => simp at h
    | cons f fates =>
      cases f with
      | true =>
        rcases List.mem_cons.mp h with rfl | h
        · exact List.mem_cons_self
        · exact List.mem_cons_of_mem _ (ih h)
      | false => exact List.mem_cons_of_mem _ (ih h)

/-! ## The view of a reader -/

section

variable {σ ν : Type*} {apply : σ → α → σ} {view : σ → ν} {about : α → Option ν} {P : σ → Prop}

/-- A reader that keeps what it was told last: a message about other things leaves its view. -/
structure Keeps (apply : σ → α → σ) (view : σ → ν) (about : α → Option ν) (P : σ → Prop) :
    Prop where
  kept : ∀ s a, P s → P (apply s a)
  view : ∀ s a, P s → view (apply s a) = (about a).getD (view s)

theorem Keeps.kept_foldl (hk : Keeps apply view about P) (l : List α) {s : σ} (hs : P s) :
    P (l.foldl apply s) := by
  induction l generalizing s with
  | nil => exact hs
  | cons a l ih => exact ih (hk.kept s a hs)

/-- **The last message** about the thing, if there is one, says what the reader sees. -/
theorem Keeps.view_foldl (hk : Keeps apply view about P) (l : List α) {s : σ} (hs : P s) :
    view (l.foldl apply s) = (l.filterMap about).getLast?.getD (view s) := by
  induction l using List.reverseRecOn with
  | nil => rfl
  | append_singleton l a ih =>
    rw [List.foldl_append, List.foldl_cons, List.foldl_nil, hk.view _ a (hk.kept_foldl l hs), ih,
      List.filterMap_append]
    cases h : about a with
    | none => simp [h]
    | some v => simp [h]

variable {i : ℕ} {v : ν}

/-- The message at a place of the list is the last one about the thing. -/
structure LastAt (about : α → Option ν) (sent : List α) (i : ℕ) (v : ν) : Prop where
  here : sent[i]?.bind about = some v
  behind : ∀ a ∈ sent.drop (i + 1), about a = none

theorem LastAt.getLast? (h : LastAt about sent i v) : (sent.filterMap about).getLast? = some v := by
  obtain ⟨a, ha, hv⟩ := Option.bind_eq_some_iff.mp h.here
  obtain ⟨hi, rfl⟩ := List.getElem?_eq_some_iff.mp ha
  have hnone : (sent.drop (i + 1)).filterMap about = [] := List.filterMap_eq_nil_iff.mpr h.behind
  rw [← List.take_append_drop i sent, List.drop_eq_getElem_cons hi, List.filterMap_append,
    List.filterMap_cons_some hv, hnone, List.getLast?_concat]

theorem LastAt.received (h : LastAt about sent i v) (hi : fates[i]? = some true) :
    ((received sent fates).filterMap about).getLast? = some v := by
  induction sent generalizing fates i with
  | nil => exact absurd h.here (by simp)
  | cons a sent ih =>
    cases i with
    | zero =>
      cases fates with
      | nil => simp at hi
      | cons f fates =>
        obtain rfl : f = true := by simpa using hi
        have hnone : (Lossy.received sent fates).filterMap about = [] :=
          List.filterMap_eq_nil_iff.mpr fun b hb =>
            h.behind b (by simpa using mem_of_mem_received hb)
        have hv : about a = some v := by simpa using h.here
        rw [Lossy.received, List.filterMap_cons_some hv, hnone]
        rfl
    | succ i =>
      cases fates with
      | nil => simp at hi
      | cons f fates =>
        have hlast : LastAt about sent i v := ⟨by simpa using h.here, by simpa using h.behind⟩
        have hrest := @ih fates i hlast (by simpa using hi)
        cases f with
        | true =>
          rw [Lossy.received, List.filterMap_cons]
          cases about a with
          | none => exact hrest
          | some u => simp [List.getLast?_cons, hrest]
        | false => rwa [Lossy.received]

theorem LastAt.pending (h : LastAt about sent i v) (hi : fates[i]? = none) :
    ((pending sent fates).filterMap about).getLast? = some v := by
  have hle : fates.length ≤ i := List.getElem?_eq_none_iff.mp hi
  apply LastAt.getLast? (i := i - fates.length)
  constructor
  · rw [Lossy.pending, List.getElem?_drop, Nat.add_sub_cancel' hle]
    exact h.here
  · rw [Lossy.pending, List.drop_drop, show fates.length + (i - fates.length + 1) = i + 1 by omega]
    exact h.behind

/-- **A delivered message** that is the last one about the thing is what the reader sees. -/
theorem view_of_delivered (hk : Keeps apply view about P) {s : σ} (hs : P s)
    (h : LastAt about sent i v) (hi : fates[i]? = some true) :
    view ((received sent fates).foldl apply s) = v := by
  rw [hk.view_foldl _ hs, h.received hi, Option.getD_some]

/-- One that is on its way is what the reader will see. -/
theorem view_of_pending (hk : Keeps apply view about P) {s : σ} (hs : P s)
    (h : LastAt about sent i v) (hi : fates[i]? = none) :
    view ((pending sent fates).foldl apply s) = v := by
  rw [hk.view_foldl _ hs, h.pending hi, Option.getD_some]

end

end Lossy
