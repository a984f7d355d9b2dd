/-
# Maps of maps

A general development: what stands in a map is listed entry by entry, where an entry may
itself be a map and give any number of items.  `items` is that list, and the rules below
say what each operation on the outer map does to it: an item that comes, goes or is
exchanged in one entry comes, goes or is exchanged in the whole, and nothing else changes.
Applied once for every level, they speak about maps of any depth.
-/
import Mathlib.Data.List.AList
import Mathlib.Data.List.Perm.Basic
import Mathlib.Data.List.Nodup

namespace Nested

/-- A map with at most one entry under each key. -/
abbrev Map (κ α : Type*) := AList fun _ : κ => α

variable {κ α β : Type*} {s : Map κ α} {a : κ} {b b' : α} {f : κ → α → List β} {x y : β}

/-! ## What stands in a map -/

/-- What the entries give, one after the other. -/
def items (f : κ → α → List β) (s : Map κ α) : List β := s.entries.flatMap fun e => f e.1 e.2

@[simp] theorem items_empty : items f (∅ : Map κ α) = [] := rfl

@[simp] theorem items_singleton : items f (AList.singleton a b) = f a b := by
  simp [items]

/-- Where the items of one entry, and the items of two entries, are related, all items are. -/
theorem items_pairwise {R : β → β → Prop} (hin : ∀ a b, (f a b).Pairwise R)
    (hout : ∀ a b a' b', a ≠ a' → ∀ x ∈ f a b, ∀ y ∈ f a' b', R x y) :
    (items f s).Pairwise R := by
  rw [items, List.pairwise_flatMap]
  refine ⟨fun e _ => hin e.1 e.2, ?_⟩
  have hkeys : s.entries.Pairwise fun e e' => e.1 ≠ e'.1 :=
    List.pairwise_map.mp (List.nodup_iff_pairwise_ne.mp s.nodupKeys)
  exact hkeys.imp fun hne => hout _ _ _ _ hne

/-! ## One entry and the others -/

variable [DecidableEq κ]

@[simp] theorem lookup_singleton : (AList.singleton a b : Map κ α).lookup a = some b :=
  @List.dlookup_cons_eq κ (fun _ => α) _ [] a b

theorem entries_perm (h : s.lookup a = some b) :
    s.entries.Perm (⟨a, b⟩ :: (s.erase a).entries) := by
  have hmem : a ∈ s.entries.keys := AList.mem_keys.mp (AList.lookup_isSome.mp (by simp [h]))
  obtain ⟨c, l, l', hnot, hl, hk⟩ := List.exists_of_kerase hmem
  obtain rfl : c = b := by
    have hc : (⟨a, c⟩ : Sigma fun _ : κ => α) ∈ s.entries := by simp [hl]
    exact Option.some.inj ((List.mem_dlookup s.nodupKeys hc).symm.trans h)
  have herase : (s.erase a).entries = l ++ l' := hk
  rw [herase, hl]
  exact List.perm_middle

theorem replace_perm (h : s.lookup a = some b) :
    (s.replace a b').entries.Perm (⟨a, b'⟩ :: (s.erase a).entries) := by
  have hperm := @List.Perm.kreplace _ _ _ a b' _ _ s.nodupKeys (entries_perm h)
  have hhead : List.kreplace a b' (⟨a, b⟩ :: (s.erase a).entries)
      = (⟨a, b'⟩ : Sigma fun _ : κ => α) :: (s.erase a).entries := by
    exact List.lookmap_cons_some _ _ (if_pos rfl)
  rw [hhead] at hperm
  exact hperm

theorem lookup_replace (h : s.lookup a = some b) (k : κ) :
    (s.replace a b').lookup k = if k = a then some b' else s.lookup k := by
  have hins : (s.replace a b').entries.Perm (s.insert a b').entries := by
    rw [AList.entries_insert]
    exact replace_perm h
  rw [AList.perm_lookup hins]
  split
  · next hk => rw [hk, AList.lookup_insert]
  · next hk => exact AList.lookup_insert_ne hk

theorem mem_items_iff : x ∈ items f s ↔ ∃ a b, s.lookup a = some b ∧ x ∈ f a b := by
  rw [items, List.mem_flatMap]
  constructor
  · rintro ⟨⟨a, b⟩, he, hx⟩
    exact ⟨a, b, List.mem_dlookup s.nodupKeys he, hx⟩
  · rintro ⟨a, b, he, hx⟩
    exact ⟨⟨a, b⟩, List.of_mem_dlookup he, hx⟩

theorem items_perm (h : s.lookup a = some b) :
    (items f s).Perm (f a b ++ items f (s.erase a)) :=
  (entries_perm h).flatMap_right _

theorem items_replace (h : s.lookup a = some b) :
    (items f (s.replace a b')).Perm (f a b' ++ items f (s.erase a)) :=
  (replace_perm h).flatMap_right _

/-! ## What the operations change -/

/-- A new entry. -/
theorem items_insert (h : s.lookup a = none) :
    items f (s.insert a b) = f a b ++ items f s := by
  rw [items, AList.entries_insert_of_notMem (AList.lookup_eq_none.mp h), List.flatMap_cons, items]

/-- An entry that goes. -/
theorem items_erase {l : List β} (h : s.lookup a = some b) (hl : f a b = l) :
    (items f s).Perm (l ++ items f (s.erase a)) := hl ▸ items_perm h

theorem items_replace_self (h : s.lookup a = some b) :
    (items f (s.replace a b)).Perm (items f s) :=
  (items_replace h).trans (items_perm h).symm

/-- Of two values for one entry, one gives one item more. -/
theorem items_replace_cons (h : s.lookup a = some b) {b₁ b₂ : α}
    (hx : (f a b₁).Perm (x :: f a b₂)) :
    (items f (s.replace a b₁)).Perm (x :: items f (s.replace a b₂)) := by
  have hcons : (f a b₁ ++ items f (s.erase a)).Perm (x :: (f a b₂ ++ items f (s.erase a))) :=
    hx.append_right _
  exact (items_replace h).trans (hcons.trans ((items_replace h).symm.cons x))

/-- An item that comes in one entry. -/
theorem items_replace_come (h : s.lookup a = some b) (hx : (f a b').Perm (x :: f a b)) :
    (items f (s.replace a b')).Perm (x :: items f s) :=
  (items_replace_cons h hx).trans ((items_replace_self h).cons x)

/-- An item that goes in one entry. -/
theorem items_replace_go (h : s.lookup a = some b) (hx : (f a b).Perm (x :: f a b')) :
    (items f s).Perm (x :: items f (s.replace a b')) :=
  (items_replace_self h).symm.trans (items_replace_cons h hx)

/-- The same items in one entry. -/
theorem items_replace_same (h : s.lookup a = some b) (hx : (f a b').Perm (f a b)) :
    (items f (s.replace a b')).Perm (items f s) :=
  (items_replace h).trans ((hx.append_right _).trans (items_perm h).symm)

end Nested
