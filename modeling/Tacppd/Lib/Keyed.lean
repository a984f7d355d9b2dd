/-
# Lists of records under a key

A general development: a list of records, each with a key, that is searched from the
front.  A record is looked up, changed in place, put at the end, or all records of a key
are dropped.  `look` says what is found under every key, and the rules below say how each
operation changes it; what is found under the other keys stays.
-/
import Mathlib.Data.List.Basic
import Mathlib.Data.List.Nodup

namespace Keyed

variable {α κ : Type*} [DecidableEq κ] (key : α → κ)

/-- The first record with the key. -/
def look (l : List α) (k : κ) : Option α := l.find? fun a => decide (key a = k)

/-- Change the first record with the key; nothing where there is none. -/
def alter (k : κ) (f : α → α) : List α → List α
  | [] => []
  | a :: l => if key a = k then f a :: l else a :: alter k f l

/-- Drop every record with the key. -/
def dropAll (k : κ) (l : List α) : List α := l.filter fun a => decide (key a ≠ k)

/-- No two records have the same key. -/
def Distinct (l : List α) : Prop := (l.map key).Nodup

variable {key} {l : List α} {k : κ}

@[simp] theorem look_nil : look key [] k = none := rfl

theorem look_cons {a : α} : look key (a :: l) k = if key a = k then some a else look key l k := by
  by_cases h : key a = k <;> simp [look, h]

theorem key_of_look {a : α} (h : look key l k = some a) : key a = k := by
  simpa using List.find?_some h

theorem mem_of_look {a : α} (h : look key l k = some a) : a ∈ l := List.mem_of_find?_eq_some h

theorem look_eq_none_iff : look key l k = none ↔ ∀ a ∈ l, key a ≠ k := by
  simp [look]

theorem look_isSome_iff : (look key l k).isSome = true ↔ ∃ a ∈ l, key a = k := by
  simp [look]

/-! ## What the operations change -/

theorem look_concat {a : α} :
    look key (l ++ [a]) k = (look key l k).or (if key a = k then some a else none) := by
  rw [look, List.find?_append, ← look, ← look, look_cons, look_nil]

theorem look_alter {f : α → α} (hf : ∀ a, key (f a) = key a) (k' : κ) :
    look key (alter key k f l) k' = if k' = k then (look key l k).map f else look key l k' := by
  induction l with
  | nil => simp [alter]
  | cons a l ih =>
    rw [alter]
    by_cases ha : key a = k
    · rw [if_pos ha, look_cons, hf, look_cons, look_cons, if_pos ha, Option.map_some]
      by_cases hk : k' = k
      · rw [if_pos hk, if_pos (ha.trans hk.symm)]
      · have hne : key a ≠ k' := fun h => hk (h.symm.trans ha)
        rw [if_neg hk, if_neg hne, if_neg hne]
    · rw [if_neg ha, look_cons, ih, look_cons, look_cons, if_neg ha]
      by_cases hk : k' = k
      · have hne : key a ≠ k' := fun h => ha (h.trans hk)
        rw [if_neg hne, if_pos hk, if_pos hk]
      · rw [if_neg hk, if_neg hk]

theorem look_dropAll (k' : κ) :
    look key (dropAll key k l) k' = if k' = k then none else look key l k' := by
  induction l with
  | nil => simp [dropAll]
  | cons a l ih =>
    rw [dropAll, List.filter_cons]
    by_cases ha : key a = k
    · rw [if_neg (by simpa using ha), ← dropAll, ih, look_cons]
      by_cases hk : k' = k
      · rw [if_pos hk, if_pos hk]
      · have hne : key a ≠ k' := fun h => hk (h.symm.trans ha)
        rw [if_neg hk, if_neg hk, if_neg hne]
    · rw [if_pos (by simpa using ha), ← dropAll, look_cons, ih, look_cons]
      by_cases hk : k' = k
      · have hne : key a ≠ k' := fun h => ha (h.trans hk)
        rw [if_neg hne, if_pos hk, if_pos hk]
      · rw [if_neg hk, if_neg hk]

/-- A record with a key of its own, at the end of the list. -/
theorem alter_concat {a : α} (hnone : look key l k = none) (ha : key a = k) (f : α → α) :
    alter key k f (l ++ [a]) = l ++ [f a] := by
  induction l with
  | nil => rw [List.nil_append, alter, if_pos ha, List.nil_append]
  | cons b l ih =>
    rw [look_cons] at hnone
    split at hnone
    · contradiction
    · next hb => rw [List.cons_append, alter, if_neg hb, ih hnone, List.cons_append]

/-- Two changes of one record. -/
theorem alter_alter {f g : α → α} (hf : ∀ a, key (f a) = key a) :
    alter key k g (alter key k f l) = alter key k (g ∘ f) l := by
  induction l with
  | nil => rfl
  | cons a l ih =>
    rw [alter, alter]
    split
    · next ha =>
      rw [alter, if_pos ((hf a).trans ha)]
      rfl
    · next ha => rw [alter, if_neg ha, ih]

/-- Only the record that is found is changed. -/
theorem alter_congr {f g : α → α} (h : ∀ a, look key l k = some a → f a = g a) :
    alter key k f l = alter key k g l := by
  induction l with
  | nil => rfl
  | cons a l ih =>
    simp only [look_cons] at h
    rw [alter, alter]
    split
    · next ha => rw [h a (if_pos ha)]
    · next ha =>
      simp only [if_neg ha] at h
      rw [ih h]

theorem alter_of_look_eq_none {f : α → α} (h : look key l k = none) : alter key k f l = l := by
  induction l with
  | nil => rfl
  | cons a l ih =>
    rw [look_cons] at h
    split at h
    · contradiction
    · next ha => rw [alter, if_neg ha, ih h]

/-! ## One operation behind another -/

theorem alter_eq_self {f : α → α} (hf : ∀ a, f a = a) : alter key k f l = l := by
  induction l with
  | nil => rfl
  | cons a l ih =>
    rw [alter, hf, ih]
    split <;> rfl

/-- A record that is in the list is changed there, whatever stands behind. -/
theorem alter_append {r : List α} (hl : look key l k ≠ none) (f : α → α) :
    alter key k f (l ++ r) = alter key k f l ++ r := by
  induction l with
  | nil => contradiction
  | cons a l ih =>
    rw [look_cons] at hl
    rw [List.cons_append, alter, alter]
    split
    · rw [List.cons_append]
    · next ha => rw [ih (by rwa [if_neg ha] at hl), List.cons_append]

/-- A change of one record and a change of all that do not interfere. -/
theorem alter_map {f g : α → α} (hg : ∀ a, key (g a) = key a) (hfg : ∀ a, f (g a) = g (f a)) :
    alter key k f (l.map g) = (alter key k f l).map g := by
  induction l with
  | nil => rfl
  | cons a l ih =>
    rw [List.map_cons, alter, alter, hg, ih, hfg]
    split <;> rw [List.map_cons]

theorem alter_dropAll {f : α → α} (hf : ∀ a, key (f a) = key a) (k' : κ) :
    alter key k f (dropAll key k' l) = dropAll key k' (alter key k f l) := by
  induction l with
  | nil => rfl
  | cons a l ih =>
    by_cases ha : key a = k
    · by_cases hk : key a = k'
      · -- the record and all others with its key go
        have hnone : look key (dropAll key k' l) k = none := by
          rw [look_dropAll, if_pos (ha.symm.trans hk)]
        rw [alter, if_pos ha, dropAll, dropAll, List.filter_cons_of_neg (by simpa using hk),
          List.filter_cons_of_neg (by simpa [hf] using hk)]
        exact alter_of_look_eq_none hnone
      · rw [alter, if_pos ha, dropAll, dropAll, List.filter_cons_of_pos (by simpa using hk),
          List.filter_cons_of_pos (by simpa [hf] using hk), alter, if_pos ha]
    · rw [alter, if_neg ha]
      by_cases hk : key a = k'
      · rw [dropAll, dropAll, List.filter_cons_of_neg (by simpa using hk),
          List.filter_cons_of_neg (by simpa using hk)]
        exact ih
      · rw [dropAll, dropAll, List.filter_cons_of_pos (by simpa using hk),
          List.filter_cons_of_pos (by simpa using hk), alter, if_neg ha]
        exact congrArg _ ih

/-! ## What the operations keep -/

theorem map_key_alter {f : α → α} (hf : ∀ a, key (f a) = key a) :
    (alter key k f l).map key = l.map key := by
  induction l with
  | nil => rfl
  | cons a l ih =>
    rw [alter]
    split
    · rw [List.map_cons, List.map_cons, hf]
    · rw [List.map_cons, List.map_cons, ih]

theorem length_alter {f : α → α} : (alter key k f l).length = l.length := by
  induction l with
  | nil => rfl
  | cons a l ih =>
    rw [alter]
    split
    · rfl
    · rw [List.length_cons, ih, List.length_cons]

theorem forall_mem_alter {f : α → α} {P : α → Prop} (hf : ∀ a, P a → P (f a))
    (h : ∀ a ∈ l, P a) : ∀ a ∈ alter key k f l, P a := by
  induction l with
  | nil => exact h
  | cons a l ih =>
    rw [List.forall_mem_cons] at h
    rw [alter]
    split
    · exact List.forall_mem_cons.mpr ⟨hf a h.1, h.2⟩
    · exact List.forall_mem_cons.mpr ⟨h.1, ih h.2⟩

theorem Distinct.alter {f : α → α} (hf : ∀ a, key (f a) = key a) (h : Distinct key l) :
    Distinct key (Keyed.alter key k f l) := by
  rwa [Distinct, map_key_alter hf]

theorem Distinct.concat {a : α} (h : Distinct key l) (ha : look key l (key a) = none) :
    Distinct key (l ++ [a]) := by
  rw [Distinct, List.map_append, List.nodup_append']
  refine ⟨h, List.nodup_singleton _, ?_⟩
  intro k hk hmem
  obtain ⟨b, hb, rfl⟩ := List.mem_map.mp hk
  exact look_eq_none_iff.mp ha b hb (List.mem_singleton.mp hmem)

theorem Distinct.dropAll (h : Distinct key l) : Distinct key (Keyed.dropAll key k l) :=
  List.Nodup.sublist (List.filter_sublist.map key) h

/-- Where keys are distinct every record is found under its key. -/
theorem Distinct.look_eq_some_iff (h : Distinct key l) {a : α} :
    look key l k = some a ↔ a ∈ l ∧ key a = k := by
  constructor
  · exact fun hl => ⟨mem_of_look hl, key_of_look hl⟩
  · rintro ⟨ha, rfl⟩
    induction l with
    | nil => simp at ha
    | cons b l ih =>
      rw [Distinct, List.map_cons, List.nodup_cons] at h
      rw [look_cons]
      rcases List.mem_cons.mp ha with rfl | ha
      · rw [if_pos rfl]
      · have hne : key b ≠ key a := fun heq => h.1 (heq ▸ List.mem_map_of_mem ha)
        rw [if_neg hne]
        exact ih h.2 ha

/-! ## Lists without repetitions -/

section

variable {α : Type*} [DecidableEq α] {l l' acc : List α}

/-- A value is put at the end of a list that does not have it. -/
def addNew (l : List α) (a : α) : List α := if a ∈ l then l else l ++ [a]

theorem length_foldl_addNew_le : (l.foldl addNew acc).length ≤ acc.length + l.length := by
  induction l generalizing acc with
  | nil => exact Nat.le_refl _
  | cons a l ih =>
    rw [List.foldl_cons, addNew, List.length_cons]
    split
    · exact Nat.le_trans ih (by omega)
    · exact Nat.le_trans ih (by simp; omega)

/-- Where none is refused, the values are different and stand as they came. -/
theorem foldl_addNew_of_length (h : (l.foldl addNew acc).length = acc.length + l.length) :
    l.foldl addNew acc = acc ++ l ∧ (acc.Nodup → (acc ++ l).Nodup) := by
  induction l generalizing acc with
  | nil => simp
  | cons a l ih =>
    rw [List.foldl_cons, addNew, List.length_cons] at h
    rw [List.foldl_cons, addNew]
    split at h
    · next hmem =>
      have hle := @length_foldl_addNew_le _ _ l acc
      omega
    · next hmem =>
      obtain ⟨heq, hnodup⟩ := @ih (acc ++ [a]) (by
        rw [h, List.length_append, List.length_singleton]
        omega)
      rw [if_neg hmem, heq, List.append_assoc, List.singleton_append]
      refine ⟨rfl, fun hacc => ?_⟩
      rw [List.append_assoc, List.singleton_append] at hnodup
      apply hnodup
      exact hacc.append (List.nodup_singleton a) (by simpa using hmem)

theorem foldl_addNew_of_nodup (h : (acc ++ l).Nodup) : l.foldl addNew acc = acc ++ l := by
  induction l generalizing acc with
  | nil => simp
  | cons a l ih =>
    have hmem : a ∉ acc := fun ha =>
      List.disjoint_of_nodup_append h ha List.mem_cons_self
    rw [List.foldl_cons, addNew, if_neg hmem, ih (by simpa using h), List.append_assoc,
      List.singleton_append]

/-- **Adding the values one by one** gives a list of as many values only when it is the list of
the values itself, and they are different. -/
theorem foldl_addNew_eq_iff (h : l.length = l'.length) :
    l.foldl addNew [] = l' ↔ l = l' ∧ l'.Nodup := by
  constructor
  · intro heq
    obtain ⟨hself, hnodup⟩ := @foldl_addNew_of_length _ _ l [] (by rw [heq, h]; simp)
    rw [heq, List.nil_append] at hself
    rw [List.nil_append, ← hself] at hnodup
    exact ⟨hself.symm, hnodup List.nodup_nil⟩
  · rintro ⟨rfl, hnodup⟩
    exact foldl_addNew_of_nodup hnodup

end

end Keyed
