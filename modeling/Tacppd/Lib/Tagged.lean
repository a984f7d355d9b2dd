/-
# Records that are filled from tagged texts

A general development: a record is filled from a list of texts, one after the other.
Each text may carry the tag of a field, and what follows the tag is then assigned to
the field, over what was assigned before.

What a field holds in the end is what the last text with its tag has assigned
(`get_foldl`); where no tag starts another one, the order in which the tags are tried
makes no difference (`get_assign`).
-/
import Mathlib.Data.List.Basic
import Mathlib.Data.List.Infix

namespace Tagged

variable {ι σ α β : Type*}

/-! ## Last writes -/

/-- What the last entry of a list that writes a value has written. -/
def lastWrite (write : ι → Option α) (l : List ι) : Option α := l.reverse.findSome? write

@[simp] theorem lastWrite_nil (write : ι → Option α) : lastWrite write [] = none := rfl

theorem lastWrite_append (write : ι → Option α) (l l' : List ι) :
    lastWrite write (l ++ l') = (lastWrite write l').or (lastWrite write l) := by
  rw [lastWrite, List.reverse_append, List.findSome?_append, lastWrite, lastWrite]

theorem lastWrite_cons (write : ι → Option α) (i : ι) (l : List ι) :
    lastWrite write (i :: l) = (lastWrite write l).or (write i) := by
  rw [← List.singleton_append, lastWrite_append]
  congr 1
  simp [lastWrite]

/-- Nothing is written where no entry writes. -/
theorem lastWrite_eq_none {write : ι → Option α} {l : List ι} (h : ∀ i ∈ l, write i = none) :
    lastWrite write l = none := by
  rw [lastWrite, List.findSome?_eq_none_iff]
  intro i hi
  exact h i (List.mem_reverse.mp hi)

/-- The last write is that of an entry. -/
theorem exists_of_lastWrite {write : ι → Option α} {l : List ι} {a : α}
    (h : lastWrite write l = some a) : ∃ i ∈ l, write i = some a := by
  obtain ⟨i, hi, ha⟩ := List.exists_of_findSome?_eq_some h
  exact ⟨i, List.mem_reverse.mp hi, ha⟩

/-- Entries that write nothing may be left out. -/
theorem lastWrite_filter {write : ι → Option α} {keep : ι → Bool}
    (h : ∀ i, keep i = false → write i = none) (l : List ι) :
    lastWrite write (l.filter keep) = lastWrite write l := by
  induction l with
  | nil => rfl
  | cons i l ih =>
    rw [lastWrite_cons, ← ih]
    cases hi : keep i with
    | true => rw [List.filter_cons_of_pos hi, lastWrite_cons]
    | false =>
      rw [List.filter_cons_of_neg (by rw [hi]; exact Bool.false_ne_true), h i hi, Option.or_none]

/-- **A field holds what the last entry that writes it has written.** -/
theorem get_foldl {step : σ → ι → σ} {get : σ → α} {write : ι → Option α}
    (hstep : ∀ s i, get (step s i) = (write i).getD (get s)) (l : List ι) (s : σ) :
    get (l.foldl step s) = (lastWrite write l).getD (get s) := by
  induction l generalizing s with
  | nil => rfl
  | cons i l ih =>
    rw [List.foldl_cons, ih, hstep, lastWrite_cons]
    cases lastWrite write l <;> rfl

/-! ## Tags -/

/-- A field of a record: its tag, and how it is assigned. -/
structure Field (β : Type*) (σ : Type*) where
  tag : List β
  set : σ → List β → σ

variable [DecidableEq β]

/-- What follows a tag in a text that starts with it. -/
def valueOf (tag text : List β) : Option (List β) :=
  if tag <+: text then some (text.drop tag.length) else none

@[simp] theorem valueOf_append (tag v : List β) : valueOf tag (tag ++ v) = some v := by
  rw [valueOf, if_pos (List.prefix_append tag v), List.drop_left]

/-- Two tags of which none starts the other. -/
def Apart (tag tag' : List β) : Prop := ¬ tag <+: tag' ∧ ¬ tag' <+: tag

instance (tag tag' : List β) : Decidable (Apart tag tag') := inferInstanceAs (Decidable (_ ∧ _))

omit [DecidableEq β] in
theorem Apart.symm {tag tag' : List β} (h : Apart tag tag') : Apart tag' tag := ⟨h.2, h.1⟩

/-- A text starts with one of two tags at most. -/
theorem valueOf_apart {tag tag' text : List β} (h : Apart tag tag') (hp : tag <+: text) :
    valueOf tag' text = none := by
  rw [valueOf, if_neg]
  intro hp'
  rcases List.prefix_or_prefix_of_prefix hp hp' with hpp | hpp
  · exact h.1 hpp
  · exact h.2 hpp

/-- The value that a text gives to the field of a tag, as the field reads it. -/
def written (tag : List β) (read : List β → Option α) (text : List β) : Option α :=
  (valueOf tag text).bind read

theorem written_of_not_prefix {tag text : List β} (h : ¬ tag <+: text)
    (read : List β → Option α) : written tag read text = none := by
  rw [written, valueOf, if_neg h, Option.bind_none]

theorem written_append (tag v : List β) (read : List β → Option α) :
    written tag read (tag ++ v) = read v := by
  rw [written, valueOf_append, Option.bind_some]

theorem written_apart {tag tag' : List β} (h : Apart tag tag') {text : List β}
    (hp : tag <+: text) (read : List β → Option α) : written tag' read text = none := by
  rw [written, valueOf_apart h hp, Option.bind_none]

/-- Where each tag comes once, its line decides. -/
theorem lastWrite_lines {lines : List (List β × List β)}
    (hapart : lines.Pairwise fun p q => Apart p.1 q.1) {p : List β × List β} (hp : p ∈ lines)
    (read : List β → Option α) :
    lastWrite (written p.1 read) (lines.map fun q => q.1 ++ q.2) = read p.2 := by
  induction lines with
  | nil => cases hp
  | cons q lines ih =>
    rw [List.pairwise_cons] at hapart
    rw [List.map_cons, lastWrite_cons]
    rcases List.mem_cons.mp hp with rfl | hp
    · have hrest : lastWrite (written p.1 read) (lines.map fun q => q.1 ++ q.2) = none := by
        apply lastWrite_eq_none
        intro text htext
        obtain ⟨q, hq, rfl⟩ := List.mem_map.mp htext
        exact written_apart (hapart.1 q hq).symm (List.prefix_append q.1 q.2) read
      rw [hrest, Option.none_or, written_append]
    · rw [ih hapart.2 hp, written_apart (hapart.1 p hp) (List.prefix_append q.1 q.2) read,
        Option.or_none]

/-- Assign the field of the first tag of a table that a text starts with. -/
def assign (table : List (Field β σ)) (s : σ) (text : List β) : σ :=
  match table.find? fun f => decide (f.tag <+: text) with
  | some f => f.set s (text.drop f.tag.length)
  | none => s

/-- In a table of tags that are apart the first one that fits is the only one. -/
theorem find?_of_apart {table : List (Field β σ)}
    (hapart : table.Pairwise fun f g => Apart f.tag g.tag) {f : Field β σ} (hf : f ∈ table)
    {text : List β} (hp : f.tag <+: text) :
    table.find? (fun g => decide (g.tag <+: text)) = some f := by
  induction table with
  | nil => cases hf
  | cons g table ih =>
    rw [List.pairwise_cons] at hapart
    rcases List.mem_cons.mp hf with rfl | hf
    · exact List.find?_cons_of_pos (by simpa using hp)
    · have hg : ¬ g.tag <+: text := by
        intro hg
        rcases List.prefix_or_prefix_of_prefix hg hp with h | h
        · exact (hapart.1 f hf).1 h
        · exact (hapart.1 f hf).2 h
      rw [List.find?_cons_of_neg (by simpa using hg)]
      exact ih hapart.2 hf

/-- **What one text does to a field**: nothing, unless it has the tag of the field. -/
theorem get_assign {table : List (Field β σ)}
    (hapart : table.Pairwise fun f g => Apart f.tag g.tag) {f : Field β σ} (hf : f ∈ table)
    {get : σ → α} {read : List β → Option α}
    (hset : ∀ s v, get (f.set s v) = (read v).getD (get s))
    (hother : ∀ g ∈ table, g.tag ≠ f.tag → ∀ s v, get (g.set s v) = get s)
    (s : σ) (text : List β) :
    get (assign table s text) = (written f.tag read text).getD (get s) := by
  by_cases hp : f.tag <+: text
  · rw [assign, find?_of_apart hapart hf hp, written, valueOf, if_pos hp]
    exact hset s _
  · rw [written, valueOf, if_neg hp, assign]
    split
    · next g hg =>
      have hfits : g.tag <+: text := by simpa using List.find?_some hg
      refine hother g (List.mem_of_find?_eq_some hg) ?_ s _
      rintro heq
      exact hp (heq ▸ hfits)
    · rfl

end Tagged
