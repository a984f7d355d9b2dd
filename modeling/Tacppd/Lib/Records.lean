/-
# Records that are written as lines and read back

A general development: a list of records is written as a text, every record as some lines, and a
machine that takes line after line makes records of it again.

`lines_flatMap` says that the lines come back from a text in which each has its newline behind it,
and `readsBack_iff` that the list is read back if and only if every record is, for machines
that read the lines of a record under a key they have not seen yet.
-/
import Mathlib.Data.List.Forall2
import Mathlib.Data.List.Nodup

namespace Records

/-! ## Lines -/

section

variable {α : Type*} [DecidableEq α] (nl : α)

/-- The lines of a text; behind the last newline stands one more. -/
def lines : List α → List (List α)
  | [] => [[]]
  | c :: s =>
    if c = nl then [] :: lines s
    else
      match lines s with
      | [] => [[c]]
      | l :: ls => (c :: l) :: ls

variable {nl} {l s : List α}

theorem lines_append (hl : nl ∉ l) (s : List α) : lines nl (l ++ nl :: s) = l :: lines nl s := by
  induction l with
  | nil => rw [List.nil_append, lines, if_pos rfl]
  | cons c l ih =>
    rw [List.mem_cons, not_or] at hl
    rw [List.cons_append, lines, if_neg (Ne.symm hl.1), ih hl.2]

/-- **Lines with their newlines** come back, with the empty one at the end. -/
theorem lines_flatMap {ls : List (List α)} (hls : ∀ l ∈ ls, nl ∉ l) :
    lines nl (ls.flatMap (· ++ [nl])) = ls ++ [[]] := by
  induction ls with
  | nil => rfl
  | cons l ls ih =>
    rw [List.flatMap_cons, List.append_assoc, List.singleton_append,
      lines_append (hls l List.mem_cons_self), ih fun l' hl' => hls l' (List.mem_cons_of_mem l hl')]
    rfl

/-- The lines of records, each of which ends with a newline. -/
theorem lines_records {ρ : Type*} {as : List ρ} {text : ρ → List α} {write : ρ → List (List α)}
    (htext : ∀ a ∈ as, text a = (write a).flatMap (· ++ [nl]))
    (hnl : ∀ a ∈ as, ∀ l ∈ write a, nl ∉ l) :
    lines nl (as.flatMap text) = as.flatMap write ++ [[]] := by
  rw [List.flatMap_congr htext, ← List.flatMap_assoc]
  apply lines_flatMap
  intro l hl
  obtain ⟨a, ha, hl⟩ := List.mem_flatMap.mp hl
  exact hnl a ha l hl

theorem not_mem_of_mem_lines (hl : l ∈ lines nl s) : nl ∉ l := by
  induction s generalizing l with
  | nil =>
    rw [List.mem_singleton.mp hl]
    exact List.not_mem_nil
  | cons c s ih =>
    rw [lines] at hl
    split at hl
    · rcases List.mem_cons.mp hl with rfl | hl
      · exact List.not_mem_nil
      · exact ih hl
    · next hc =>
      split at hl
      · rw [List.mem_singleton.mp hl, List.mem_singleton]
        exact Ne.symm hc
      · next l' ls heq =>
        rcases List.mem_cons.mp hl with rfl | hl
        · rw [List.mem_cons, not_or]
          exact ⟨Ne.symm hc, ih (heq ▸ List.mem_cons_self)⟩
        · exact ih (heq ▸ List.mem_cons_of_mem l' hl)

end

/-! ## Runs over lines -/

section

variable {σ τ : Type*} {step : σ → τ → Option σ}

/-- What every step keeps, a run keeps. -/
theorem foldlM_invariant {P : σ → Prop} {ls : List τ}
    (hstep : ∀ s s' l, l ∈ ls → P s → step s l = some s' → P s') {s s' : σ} (hs : P s)
    (h : ls.foldlM step s = some s') : P s' := by
  induction ls generalizing s with
  | nil =>
    obtain rfl := Option.some.inj h
    exact hs
  | cons l ls ih =>
    rw [List.foldlM_cons] at h
    obtain ⟨s₁, h₁, h⟩ := Option.bind_eq_some_iff.mp h
    refine ih (fun s s' l' hl' => hstep s s' l' (List.mem_cons_of_mem l hl')) ?_ h
    exact hstep s s₁ l List.mem_cons_self hs h₁

end

/-! ## Reads one after the other -/

section

variable {α β ι : Type*} [Inhabited β] {r : ι → Option β} {set : ι → β → α → α}

/-- A fold over reads, each of which changes the state: it comes to an end if all reads do. -/
theorem foldlM_reads_eq_some_iff {l : List ι} {x y : α} :
    l.foldlM (fun x i => (r i).map fun v => set i v x) x = some y ↔
      (∀ i ∈ l, (r i).isSome = true) ∧
        l.foldl (fun x i => set i ((r i).getD default) x) x = y := by
  induction l generalizing x with
  | nil => simp
  | cons i l ih =>
    rw [List.foldlM_cons, List.forall_mem_cons, List.foldl_cons]
    cases hread : r i with
    | none => simp
    | some v =>
      show l.foldlM _ (set i v x) = some y ↔ _
      rw [ih]
      simp

end

/-! ## Records -/

section

variable {ρ κ σ τ : Type*} {key : ρ → κ} {step : σ → τ → Option σ} {state : List ρ → σ}
  {write : ρ → List τ} {read : ρ → Option ρ}

/-- The lines of records with keys of their own, one record after the other. -/
theorem foldlM_records {l : List ρ}
    (hone : ∀ a ∈ l, ∀ rs, key a ∉ rs.map key →
      (write a).foldlM step (state rs) = (read a).map fun a' => state (rs ++ [a']))
    (hkey : ∀ a ∈ l, ∀ a', read a = some a' → key a' = key a) (rs : List ρ)
    (hl : ((rs ++ l).map key).Nodup) :
    (l.flatMap write).foldlM step (state rs) = (l.mapM read).map fun l' => state (rs ++ l') := by
  induction l generalizing rs with
  | nil => simp
  | cons a l ih =>
    rw [List.forall_mem_cons] at hone hkey
    have ha : key a ∉ rs.map key := by
      rw [List.map_append, List.map_cons] at hl
      intro hmem
      exact (List.disjoint_of_nodup_append hl) hmem List.mem_cons_self
    rw [List.flatMap_cons, List.foldlM_append, hone.1 rs ha, List.mapM_cons]
    cases hread : read a with
    | none => rfl
    | some a' =>
      have hl' : (((rs ++ [a']) ++ l).map key).Nodup := by
        rw [List.append_assoc, List.singleton_append]
        simpa [hkey.1 a' hread] using hl
      show (l.flatMap write).foldlM step (state (rs ++ [a'])) = _
      rw [ih hone.2 hkey.2 _ hl']
      cases l.mapM read <;> simp

theorem mapM_eq_some_self_iff {l : List ρ} : l.mapM read = some l ↔ ∀ a ∈ l, read a = some a := by
  induction l with
  | nil => simp
  | cons a l ih =>
    rw [List.mapM_cons, List.forall_mem_cons, ← ih]
    constructor
    · intro h
      obtain ⟨a', ha, h⟩ := Option.bind_eq_some_iff.mp h
      obtain ⟨l', hl, h⟩ := Option.bind_eq_some_iff.mp h
      obtain ⟨rfl, rfl⟩ := List.cons.inj (Option.some.inj h)
      exact ⟨ha, hl⟩
    · rintro ⟨ha, hl⟩
      rw [ha, hl]
      rfl

/-- **Records are read back** if and only if each of them is. -/
theorem readsBack_iff {l : List ρ}
    (hone : ∀ a ∈ l, ∀ rs, key a ∉ rs.map key →
      (write a).foldlM step (state rs) = (read a).map fun a' => state (rs ++ [a']))
    (hkey : ∀ a ∈ l, ∀ a', read a = some a' → key a' = key a)
    (hinj : ∀ l l', state l = state l' → l = l') (hl : (l.map key).Nodup) :
    (l.flatMap write).foldlM step (state []) = some (state l) ↔ ∀ a ∈ l, read a = some a := by
  rw [foldlM_records hone hkey [] hl, ← mapM_eq_some_self_iff]
  simp only [List.nil_append, Option.map_eq_some_iff]
  constructor
  · rintro ⟨l', hl', heq⟩
    rw [hl', hinj l' l heq]
  · intro hall
    exact ⟨l, hall, rfl⟩

/-! ## Records that are merged -/

variable {want : ρ → κ}

/-- Lines that ask for a key which is there already add no record, so a run ends with as many
records as were written only when every key was new. -/
theorem of_foldlM_merge {l : List ρ}
    (hnew : ∀ a ∈ l, ∀ rs, want a ∉ rs.map key →
      (write a).foldlM step (state rs) = (read a).map fun a' => state (rs ++ [a']))
    (hold : ∀ a ∈ l, ∀ rs s, want a ∈ rs.map key → (write a).foldlM step (state rs) = some s →
      ∃ rs', s = state rs' ∧ rs'.length = rs.length)
    (hread : ∀ a ∈ l, ∀ a', read a = some a' → key a' = want a) {rs : List ρ} {s : σ}
    (h : (l.flatMap write).foldlM step (state rs) = some s) :
    ∃ r, s = state r ∧ r.length ≤ rs.length + l.length ∧
      (r.length = rs.length + l.length → ∃ l', l.mapM read = some l' ∧ r = rs ++ l' ∧
        ((rs.map key).Nodup → (r.map key).Nodup)) := by
  induction l generalizing rs with
  | nil =>
    obtain rfl := Option.some.inj h
    exact ⟨rs, rfl, Nat.le_refl _, fun _ => ⟨[], rfl, (List.append_nil rs).symm, id⟩⟩
  | cons a l ih =>
    rw [List.forall_mem_cons] at hnew hold hread
    rw [List.flatMap_cons, List.foldlM_append] at h
    obtain ⟨s₁, h₁, h⟩ := Option.bind_eq_some_iff.mp h
    rw [List.length_cons]
    by_cases hmem : want a ∈ rs.map key
    · obtain ⟨rs', rfl, hlen⟩ := hold.1 rs s₁ hmem h₁
      obtain ⟨r, hr, hle, -⟩ := ih hnew.2 hold.2 hread.2 h
      exact ⟨r, hr, by omega, fun heq => absurd heq (by omega)⟩
    · rw [hnew.1 rs hmem] at h₁
      obtain ⟨a', ha', rfl⟩ := Option.map_eq_some_iff.mp h₁
      obtain ⟨r, hr, hle, hall⟩ := ih hnew.2 hold.2 hread.2 h
      rw [List.length_append, List.length_singleton] at hle hall
      refine ⟨r, hr, by omega, fun heq => ?_⟩
      obtain ⟨l', hl', hrl, hnodup⟩ := hall (by omega)
      refine ⟨a' :: l', ?_, by simpa using hrl, fun hrs => hnodup ?_⟩
      · rw [List.mapM_cons, ha', hl']
        rfl
      · rw [List.map_append, List.nodup_append]
        refine ⟨hrs, List.nodup_singleton _, ?_⟩
        rintro k hk _ hk' rfl
        rw [List.map_singleton, List.mem_singleton, hread.1 a' ha'] at hk'
        exact hmem (hk' ▸ hk)

/-- **Merged records are read back** if and only if each of them is and no key comes twice. -/
theorem readsBack_merge_iff {l : List ρ}
    (hnew : ∀ a ∈ l, ∀ rs, want a ∉ rs.map key →
      (write a).foldlM step (state rs) = (read a).map fun a' => state (rs ++ [a']))
    (hold : ∀ a ∈ l, ∀ rs s, want a ∈ rs.map key → (write a).foldlM step (state rs) = some s →
      ∃ rs', s = state rs' ∧ rs'.length = rs.length)
    (hread : ∀ a ∈ l, ∀ a', read a = some a' → key a' = want a)
    (hinj : ∀ l l', state l = state l' → l = l') :
    (l.flatMap write).foldlM step (state []) = some (state l) ↔
      (l.map key).Nodup ∧ ∀ a ∈ l, read a = some a := by
  constructor
  · intro h
    obtain ⟨r, hr, -, hall⟩ := of_foldlM_merge hnew hold hread h
    obtain rfl := hinj l r hr
    obtain ⟨l', hl', hrl, hnodup⟩ := hall (by simp)
    rw [List.nil_append] at hrl
    rw [← hrl] at hl'
    exact ⟨hnodup List.nodup_nil, mapM_eq_some_self_iff.mp hl'⟩
  · rintro ⟨hl, hall⟩
    refine (readsBack_iff ?_ ?_ hinj hl).mpr hall
    · intro a ha rs hrs
      refine hnew a ha rs ?_
      rwa [← hread a ha a (hall a ha)]
    · intro a ha a' ha'
      rw [hread a ha a' ha', hread a ha a (hall a ha)]

end

end Records
