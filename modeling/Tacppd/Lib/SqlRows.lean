/-
# Updates of the rows of a table

A general development: a row gives each column a value, and a statement selects rows by a
list of columns with texts and sets others to the values of texts.  What a text stands for is
a parameter; a server does what the documentation says of statements whose texts all stand
for values, and anything with the others.

`right_iff` says when an UPDATE changes exactly the rows that another condition
selects, to what is wanted of their columns, on every server.
-/
import Mathlib.Data.List.Forall2
import Mathlib.Data.Set.Finite.Basic

namespace SqlRows

open Classical

variable {κ τ α : Type*}

/-! ## Rows -/

/-- The row with the values of the assignment. -/
def apply (s : κ → Option α) (r : κ → α) : κ → α := fun k => (s k).getD (r k)

/-- The row with new values in the columns of a list. -/
noncomputable def setColumns (us : List κ) (v r : κ → α) : κ → α :=
  fun k => if k ∈ us then v k else r k

/-- What is wanted of a row: its columns in the list have values that are right for them, and
the others are as they were. -/
structure Becomes (us : List κ) (W : κ → α → Prop) (r r' : κ → α) : Prop where
  wanted : ∀ k ∈ us, W k (r' k)
  frame : ∀ k, k ∉ us → r' k = r k

section

variable {us us' : List κ} {W : κ → α → Prop} {v r r' : κ → α}

theorem becomes_congr (h : ∀ k, k ∈ us ↔ k ∈ us') :
    Becomes us W r r' ↔ Becomes us' W r r' := by
  constructor
  · exact fun hb => ⟨fun k hk => hb.wanted k ((h k).mpr hk),
      fun k hk => hb.frame k fun hin => hk ((h k).mp hin)⟩
  · exact fun hb => ⟨fun k hk => hb.wanted k ((h k).mp hk),
      fun k hk => hb.frame k fun hin => hk ((h k).mpr hin)⟩

theorem becomes_setColumns_iff : Becomes us W r (setColumns us v r) ↔ ∀ k ∈ us, W k (v k) := by
  constructor
  · intro h k hk
    have hkey := h.wanted k hk
    rwa [setColumns, if_pos hk] at hkey
  · intro h
    refine ⟨fun k hk => ?_, fun k hk => if_neg hk⟩
    rw [setColumns, if_pos hk]
    exact h k hk

theorem becomes_self_iff : Becomes us W r r ↔ ∀ k ∈ us, W k (r k) :=
  ⟨fun h => h.wanted, fun h => ⟨h, fun _ _ => rfl⟩⟩

theorem setColumns_eq_self_iff : setColumns us v r = r ↔ ∀ k ∈ us, v k = r k := by
  constructor
  · intro h k hk
    have hkey := congrFun h k
    rwa [setColumns, if_pos hk] at hkey
  · intro h
    funext k
    rw [setColumns]
    split
    · next hk => exact h k hk
    · rfl

end

/-! ## Texts and servers -/

section

variable (val : τ → Option α)

/-- What a list of columns with texts stands for; nothing if a text stands for no value. -/
def values : List (κ × τ) → Option (List (κ × α))
  | [] => some []
  | (k, t) :: l => (val t).bind fun v => (values l).map ((k, v) :: ·)

/-- A server: the rows that a condition selects, and what it does for an UPDATE whose new
values are no values. -/
structure Server where
  holds : List (κ × τ) → (κ → α) → Prop
  odd : List (κ × τ) → List (κ × τ) → List (κ → α) → List (κ → α)
  holds_iff : ∀ conds vals, values val conds = some vals →
    ∀ r, holds conds r ↔ ∀ p ∈ vals, r p.1 = p.2

variable {val}

/-- `UPDATE ... SET sets WHERE conds`. -/
noncomputable def Server.update (srv : @Server κ τ α val) (sets conds : List (κ × τ))
    (rows : List (κ → α)) : List (κ → α) :=
  match values val sets with
  | none => srv.odd sets conds rows
  | some vals => rows.map fun r => if srv.holds conds r then apply (fun k => vals.lookup k) r else r

/-- `DELETE ... WHERE conds`. -/
noncomputable def Server.delete (srv : @Server κ τ α val) (conds : List (κ × τ))
    (rows : List (κ → α)) : List (κ → α) := rows.filter fun r => ¬ srv.holds conds r

/-! ### Lists of distinct columns -/

/-- The columns with their texts. -/
def texts (ns : List κ) (t : κ → τ) : List (κ × τ) := ns.map fun n => (n, t n)

theorem values_texts {ns : List κ} {t : κ → τ} {v : κ → α}
    (h : ∀ n ∈ ns, val (t n) = some (v n)) :
    values val (texts ns t) = some (ns.map fun n => (n, v n)) := by
  induction ns with
  | nil => rfl
  | cons n ns ih =>
    rw [List.forall_mem_cons] at h
    rw [texts, List.map_cons, values, h.1, Option.bind_some]
    rw [texts] at ih
    rw [ih h.2]
    rfl

theorem values_texts_eq_none {ns : List κ} {t : κ → τ} {n : κ} (hn : n ∈ ns)
    (h : val (t n) = none) : values val (texts ns t) = none := by
  induction ns with
  | nil => simp at hn
  | cons m ns ih =>
    rw [texts, List.map_cons, values]
    rcases List.mem_cons.mp hn with rfl | hn
    · rw [h, Option.bind_none]
    · rw [texts] at ih
      rw [ih hn]
      cases val (t m) <;> rfl

/-- The assignment of some columns. -/
theorem apply_lookup_map (ns : List κ) (v r : κ → α) :
    apply (fun k => (ns.map fun n => (n, v n)).lookup k) r = setColumns ns v r := by
  funext k
  rw [apply, setColumns]
  induction ns with
  | nil => rfl
  | cons n ns ih =>
    rw [List.map_cons, List.lookup_cons]
    by_cases hk : k = n
    · simp [hk]
    · rw [show (k == n) = false by simpa using hk]
      simp only [ih, List.mem_cons, hk, false_or]

/-! ### When an UPDATE is right -/

variable {ns us : List κ} {tm td ts : κ → τ} {W : κ → α → Prop}

/-- The UPDATE changes the rows that `td` selects, sets their columns to what is wanted, and
leaves the other columns and rows alone. -/
def Right (val : τ → Option α) (ns us : List κ) (tm td ts : κ → τ) (W : κ → α → Prop) : Prop :=
  ∀ (srv : @Server κ τ α val) (rows : List (κ → α)),
    List.Forall₂ (fun r r' => if srv.holds (texts ns td) r then Becomes us W r r' else r' = r)
      rows (srv.update (texts us ts) (texts ns tm) rows)

/-- The two conditions select the same rows: they are the same texts, or they stand for the
same values. -/
def SameRows (val : τ → Option α) (ns : List κ) (tm td : κ → τ) : Prop :=
  (∀ n ∈ ns, tm n = td n) ∨ ∀ n ∈ ns, (val (tm n)).isSome = true ∧ val (tm n) = val (td n)

/-- The texts stand for values that are wanted. -/
def SetsWanted (val : τ → Option α) (us : List κ) (ts : κ → τ) (W : κ → α → Prop) : Prop :=
  ∀ n ∈ us, ∃ v ∈ val (ts n), W n v

instance [∀ k v, Decidable (W k v)] : Decidable (SetsWanted val us ts W) :=
  inferInstanceAs (Decidable (∀ n ∈ us, ∃ v ∈ val (ts n), W n v))

/-- The rows have wanted values already, if both conditions stand for values. -/
def NothingToDo (val : τ → Option α) (ns us : List κ) (tm td : κ → τ) (W : κ → α → Prop) :
    Prop :=
  (∀ n ∈ ns, (val (tm n)).isSome = true ∧ (val (td n)).isSome = true) ∧
    ∀ n ∈ us, n ∈ ns ∧ ∃ v ∈ val (td n), W n v

/-- A server that knows what to do with conditions that stand for values, with a choice for
the others. -/
def serverOf (val : τ → Option α) (g : List (κ × τ) → Prop)
    (odd : List (κ → α) → List (κ → α)) : @Server κ τ α val where
  holds conds r :=
    match values val conds with
    | none => g conds
    | some vals => ∀ p ∈ vals, r p.1 = p.2
  odd _ _ := odd
  holds_iff := by
    intro conds vals hvals r
    rw [hvals]

theorem exists_values [Nonempty α] {t : κ → τ} (h : ∀ n ∈ ns, (val (t n)).isSome = true) :
    ∃ v : κ → α, ∀ n ∈ ns, val (t n) = some (v n) := by
  obtain ⟨a⟩ := ‹Nonempty α›
  refine ⟨fun n => (val (t n)).getD a, fun n hn => ?_⟩
  obtain ⟨v, hv⟩ := Option.isSome_iff_exists.mp (h n hn)
  simp only [hv, Option.getD_some]

theorem setsWanted_iff {vs : κ → α} (h : ∀ n ∈ us, val (ts n) = some (vs n)) :
    SetsWanted val us ts W ↔ ∀ n ∈ us, W n (vs n) := by
  constructor
  · intro hset n hn
    obtain ⟨v, hv, hW⟩ := hset n hn
    rw [h n hn, Option.mem_some_iff] at hv
    exact hv ▸ hW
  · exact fun hset n hn => ⟨vs n, h n hn, hset n hn⟩

/-- An UPDATE with values. -/
theorem update_of_values (srv : @Server κ τ α val) {vs : κ → α}
    (h : ∀ n ∈ us, val (ts n) = some (vs n)) (conds : List (κ × τ)) (rows : List (κ → α)) :
    srv.update (texts us ts) conds rows =
      rows.map fun r => if srv.holds conds r then setColumns us vs r else r := by
  rw [Server.update, values_texts h]
  simp only [apply_lookup_map]

/-- An UPDATE that sets nothing. -/
theorem update_nil (srv : @Server κ τ α val) (conds : List (κ × τ)) (rows : List (κ → α)) :
    srv.update (texts [] ts) conds rows = rows := by
  have hid : ∀ r : κ → α, apply (fun k => ([] : List (κ × α)).lookup k) r = r := fun _ => rfl
  rw [Server.update]
  simp only [texts, List.map_nil, values, hid, ite_self, List.map_id']

/-- A condition with values. -/
theorem holds_of_values (srv : @Server κ τ α val) {t : κ → τ} {v : κ → α}
    (h : ∀ n ∈ ns, val (t n) = some (v n)) (r : κ → α) :
    srv.holds (texts ns t) r ↔ ∀ n ∈ ns, r n = v n := by
  rw [srv.holds_iff _ _ (values_texts h), List.forall_mem_map]

theorem holds_serverOf {g : List (κ × τ) → Prop} {odd : List (κ → α) → List (κ → α)}
    {conds : List (κ × τ)} (h : values val conds = none) (r : κ → α) :
    (serverOf val g odd).holds conds r ↔ g conds := by
  simp only [serverOf, h]

/-- Where there is nothing to set, an UPDATE is right. -/
theorem right_nil : Right val ns [] tm td ts W := by
  intro srv rows
  rw [update_nil, List.forall₂_same]
  intro r _
  split
  · exact becomes_self_iff.mpr fun k hk => absurd hk List.not_mem_nil
  · rfl

/-- One row at a time: it is selected by both conditions, missed, or hit by mistake. -/
structure RowRight (us : List κ) (W : κ → α → Prop) (vs r : κ → α) (wanted hit : Prop) :
    Prop where
  both : wanted → hit → ∀ n ∈ us, W n (vs n)
  missed : wanted → ¬ hit → ∀ n ∈ us, W n (r n)
  mistake : ¬ wanted → hit → ∀ n ∈ us, vs n = r n

theorem right_iff_rows {vs : κ → α} (h : ∀ n ∈ us, val (ts n) = some (vs n)) :
    Right val ns us tm td ts W ↔ ∀ (srv : @Server κ τ α val) (r : κ → α),
      RowRight us W vs r (srv.holds (texts ns td) r) (srv.holds (texts ns tm) r) := by
  have hrow : ∀ (srv : @Server κ τ α val) (r : κ → α),
      (if srv.holds (texts ns td) r then
          Becomes us W r (if srv.holds (texts ns tm) r then setColumns us vs r else r)
        else (if srv.holds (texts ns tm) r then setColumns us vs r else r) = r) ↔
      RowRight us W vs r (srv.holds (texts ns td) r) (srv.holds (texts ns tm) r) := by
    intro srv r
    by_cases hd : srv.holds (texts ns td) r <;> by_cases hm : srv.holds (texts ns tm) r
    · rw [if_pos hd, if_pos hm, becomes_setColumns_iff]
      exact ⟨fun hb => ⟨fun _ _ => hb, fun _ hno => absurd hm hno, fun hno => absurd hd hno⟩,
        fun hb => hb.both hd hm⟩
    · rw [if_pos hd, if_neg hm, becomes_self_iff]
      exact ⟨fun hb => ⟨fun _ hin => absurd hin hm, fun _ _ => hb, fun hno => absurd hd hno⟩,
        fun hb => hb.missed hd hm⟩
    · rw [if_neg hd, if_pos hm, setColumns_eq_self_iff]
      exact ⟨fun hb => ⟨fun hin => absurd hin hd, fun hin => absurd hin hd, fun _ _ => hb⟩,
        fun hb => hb.mistake hd hm⟩
    · rw [if_neg hd, if_neg hm]
      exact ⟨fun _ => ⟨fun hin => absurd hin hd, fun hin => absurd hin hd,
        fun _ hin => absurd hin hm⟩, fun _ => rfl⟩
  constructor
  · intro hright srv r
    have hr := hright srv [r]
    rw [update_of_values srv h, List.forall₂_map_right_iff, List.forall₂_same] at hr
    exact (hrow srv r).mp (hr r (List.mem_singleton_self r))
  · intro hrows srv rows
    rw [update_of_values srv h, List.forall₂_map_right_iff, List.forall₂_same]
    exact fun r _ => (hrow srv r).mpr (hrows srv r)

/-- New values that are no values may do anything. -/
theorem Right.isSome_values [Nonempty α] (h : Right val ns us tm td ts W) :
    ∀ n ∈ us, (val (ts n)).isSome = true := by
  intro n hn
  by_contra hno
  obtain ⟨a⟩ := ‹Nonempty α›
  have hnone := values_texts_eq_none hn (Option.not_isSome_iff_eq_none.mp hno)
  have hodd := h (serverOf val (fun _ => True) fun _ => [fun _ => a]) []
  rw [Server.update, hnone] at hodd
  have hnil : [fun _ : κ => a] = [] := List.forall₂_nil_left_iff.mp hodd
  contradiction

/-- With values everywhere, it is a question of the two conditions. -/
theorem right_iff_of_values (hslot : ∀ n ∈ us, n ∈ ns → ts n = tm n)
    (hW : ∀ n ∈ us, ∃ a, ¬ W n a) {vm vd vs : κ → α} (hm : ∀ n ∈ ns, val (tm n) = some (vm n))
    (hd : ∀ n ∈ ns, val (td n) = some (vd n)) (hs : ∀ n ∈ us, val (ts n) = some (vs n)) :
    Right val ns us tm td ts W ↔
      ((∀ n ∈ ns, vm n = vd n) ∧ ∀ n ∈ us, W n (vs n)) ∨ ∀ n ∈ us, n ∈ ns ∧ W n (vd n) := by
  have hset : ∀ n ∈ us, n ∈ ns → vs n = vm n := by
    intro n hn hin
    rw [← Option.some.injEq, ← hs n hn, ← hm n hin, hslot n hn hin]
  simp only [right_iff_rows hs, holds_of_values _ hm, holds_of_values _ hd]
  constructor
  · intro hrows
    have hrow := hrows (serverOf val (fun _ => True) id)
    by_cases hsame : ∀ n ∈ ns, vm n = vd n
    · exact .inl ⟨hsame, (hrow vd).both (fun _ _ => rfl) fun n hn => (hsame n hn).symm⟩
    · push Not at hsame
      obtain ⟨n₁, hn₁, hne⟩ := hsame
      refine .inr fun n hn => ?_
      -- a row that is missed, with a value that is not wanted outside the condition
      obtain ⟨a, ha⟩ := hW n hn
      have hmissed := (hrow (setColumns ns vd fun _ => a)).missed
        (fun k hk => if_pos hk) (fun hall => hne (by rw [← hall n₁ hn₁, setColumns, if_pos hn₁]))
        n hn
      rw [setColumns] at hmissed
      split at hmissed
      · next hin => exact ⟨hin, hmissed⟩
      · exact absurd hmissed ha
  · rintro (⟨hsame, hwant⟩ | hwant) srv r
    · refine ⟨fun _ _ => hwant, fun hwanted hno => ?_, fun hno hhit => ?_⟩
      · exact absurd (fun n hn => (hwanted n hn).trans (hsame n hn).symm) hno
      · exact absurd (fun n hn => (hhit n hn).trans (hsame n hn)) hno
    · refine ⟨fun hwanted hhit n hn => ?_, fun hwanted _ n hn => ?_, fun _ hhit n hn => ?_⟩
      · obtain ⟨hin, hval⟩ := hwant n hn
        rwa [hset n hn hin, ← hhit n hin, hwanted n hin]
      · obtain ⟨hin, hval⟩ := hwant n hn
        rwa [hwanted n hin]
      · rw [hset n hn (hwant n hn).1, hhit n (hwant n hn).1]

theorem texts_eq_iff {t t' : κ → τ} : texts ns t = texts ns t' ↔ ∀ n ∈ ns, t n = t' n := by
  rw [texts, texts, List.map_inj_left]
  simp

/-- A value that none of the texts stands for, that is not set, and that is not wanted. -/
theorem exists_fresh {n₀ : κ} (hW : {a | ¬ W n₀ a}.Infinite) (ns : List κ) (tm td : κ → τ)
    (b : α) : ∃ a : α, (∀ n ∈ ns, val (tm n) ≠ some a ∧ val (td n) ≠ some a) ∧ b ≠ a ∧
      ¬ W n₀ a := by
  obtain ⟨a, ha, hnot⟩ := hW.exists_notMem_finset
    ((ns.filterMap fun n => val (tm n)).toFinset ∪ (ns.filterMap fun n => val (td n)).toFinset ∪
      {b})
  simp only [Finset.mem_union, List.mem_toFinset, List.mem_filterMap, Finset.mem_singleton,
    not_or, not_exists, not_and] at hnot
  exact ⟨a, fun n hn => ⟨hnot.1.1 n hn, hnot.1.2 n hn⟩, fun h => hnot.2 h.symm, ha⟩

/-- A condition with a text that stands for no value has to be the same text, and what is set
has to be wanted. -/
theorem Right.of_no_value [Nonempty α] (h : Right val ns us tm td ts W) {n₀ n₁ : κ}
    (hn₀ : n₀ ∈ us) (hW : {a | ¬ W n₀ a}.Infinite) (hn₁ : n₁ ∈ ns)
    (hnone : val (tm n₁) = none ∨ val (td n₁) = none) :
    (∀ n ∈ ns, tm n = td n) ∧ SetsWanted val us ts W := by
  obtain ⟨vs, hs⟩ := exists_values h.isSome_values
  have hrows := (right_iff_rows hs).mp h
  obtain ⟨a, hfresh, hother, hunwanted⟩ := @exists_fresh κ τ α val W n₀ hW ns tm td (vs n₀)
  -- the constant row of a fresh value is selected by no condition that stands for values
  have hout : ∀ (t : κ → τ) (g : List (κ × τ) → Prop), (∀ n ∈ ns, val (t n) ≠ some a) →
      ¬ g (texts ns t) → ¬ (serverOf val g id).holds (texts ns t) fun _ => a := by
    intro t g ht hg hholds
    by_cases hall : ∀ n ∈ ns, (val (t n)).isSome = true
    · obtain ⟨v, hv⟩ := exists_values hall
      rw [holds_of_values _ hv] at hholds
      exact ht n₁ hn₁ (by rw [hv n₁ hn₁, ← hholds n₁ hn₁])
    · push Not at hall
      obtain ⟨n, hn, hno⟩ := hall
      rw [holds_serverOf (values_texts_eq_none hn (Option.not_isSome_iff_eq_none.mp hno))] at hholds
      exact hg hholds
  have hsame : texts ns tm = texts ns td := by
    by_contra hne
    rcases Option.eq_none_or_eq_some (val (td n₁)) with hd | ⟨v, hd⟩
    · -- every row is wanted, and this one is missed
      have hin : (serverOf val (· = texts ns td) id).holds (texts ns td) fun _ => a :=
        (holds_serverOf (values_texts_eq_none hn₁ hd) _).mpr rfl
      exact hunwanted ((hrows (serverOf val (· = texts ns td) id) fun _ => a).missed hin
        (hout tm _ (fun n hn => (hfresh n hn).1) hne) n₀ hn₀)
    · -- every row is hit, and this one by mistake
      have hm : val (tm n₁) = none := hnone.resolve_right (by rw [hd]; simp)
      have hin : (serverOf val (· = texts ns tm) id).holds (texts ns tm) fun _ => a :=
        (holds_serverOf (values_texts_eq_none hn₁ hm) _).mpr rfl
      exact hother ((hrows (serverOf val (· = texts ns tm) id) fun _ => a).mistake
        (hout td _ (fun n hn => (hfresh n hn).2) (Ne.symm hne)) hin n₀ hn₀)
  refine ⟨texts_eq_iff.mp hsame, (setsWanted_iff hs).mpr ?_⟩
  have hnone' : values val (texts ns td) = none := by
    rcases hnone with hm | hd
    · rw [← hsame]
      exact values_texts_eq_none hn₁ hm
    · exact values_texts_eq_none hn₁ hd
  have hin : (serverOf val (fun _ => True) id).holds (texts ns td) fun _ => a :=
    (holds_serverOf hnone' _).mpr trivial
  exact (hrows (serverOf val (fun _ => True) id) fun _ => a).both hin (by rwa [hsame])

/-- **An UPDATE is right on every server** exactly when there is nothing to set, or its new
values stand for values and, either it selects the same rows and sets what is wanted, or there
is nothing to do.  Of each column that is set, infinitely many values are not wanted. -/
theorem right_iff [Nonempty α] (hslot : ∀ n ∈ us, n ∈ ns → ts n = tm n)
    (hW : ∀ n ∈ us, {a | ¬ W n a}.Infinite) :
    Right val ns us tm td ts W ↔ us = [] ∨
      ((∀ n ∈ us, (val (ts n)).isSome = true) ∧
        ((SameRows val ns tm td ∧ SetsWanted val us ts W) ∨
          NothingToDo val ns us tm td W)) := by
  have hsome : ∀ n ∈ us, ∃ a, ¬ W n a := fun n hn => (hW n hn).nonempty
  constructor
  · intro h
    rcases us with _ | ⟨n₀, us⟩
    · exact .inl rfl
    · refine .inr ⟨h.isSome_values, ?_⟩
      by_cases hall : ∀ n ∈ ns, (val (tm n)).isSome = true ∧ (val (td n)).isSome = true
      · obtain ⟨vs, hs⟩ := exists_values h.isSome_values
        obtain ⟨vm, hm⟩ := exists_values fun n hn => (hall n hn).1
        obtain ⟨vd, hd⟩ := exists_values fun n hn => (hall n hn).2
        rcases (right_iff_of_values hslot hsome hm hd hs).mp h with ⟨hrows, hset⟩ | hpart
        · refine .inl ⟨.inr fun n hn => ⟨(hall n hn).1, ?_⟩, (setsWanted_iff hs).mpr hset⟩
          rw [hm n hn, hd n hn, hrows n hn]
        · exact .inr ⟨hall, fun n hn =>
            ⟨(hpart n hn).1, vd n, hd n (hpart n hn).1, (hpart n hn).2⟩⟩
      · push Not at hall
        obtain ⟨n₁, hn₁, hno⟩ := hall
        have hnone : val (tm n₁) = none ∨ val (td n₁) = none := by
          by_cases hsome : (val (tm n₁)).isSome = true
          · exact .inr (Option.not_isSome_iff_eq_none.mp (hno hsome))
          · exact .inl (Option.not_isSome_iff_eq_none.mp hsome)
        have hfirst := hW n₀ List.mem_cons_self
        obtain ⟨hsame, hset⟩ := h.of_no_value List.mem_cons_self hfirst hn₁ hnone
        exact .inl ⟨.inl hsame, hset⟩
  · rintro (rfl | ⟨hvalues, ⟨hsame, hset⟩ | ⟨hall, hpart⟩⟩)
    · exact right_nil
    · obtain ⟨vs, hs⟩ := exists_values hvalues
      rw [setsWanted_iff hs] at hset
      rw [right_iff_rows hs]
      intro srv r
      have hiff : srv.holds (texts ns td) r ↔ srv.holds (texts ns tm) r := by
        rcases hsame with htexts | hsame
        · rw [texts_eq_iff.mpr htexts]
        · obtain ⟨vm, hm⟩ := exists_values fun n hn => (hsame n hn).1
          have hd : ∀ n ∈ ns, val (td n) = some (vm n) := by
            intro n hn
            rw [← (hsame n hn).2, hm n hn]
          rw [holds_of_values _ hm, holds_of_values _ hd]
      exact ⟨fun _ _ => hset, fun hin hno => absurd (hiff.mp hin) hno,
        fun hno hin => absurd (hiff.mpr hin) hno⟩
    · obtain ⟨vs, hs⟩ := exists_values hvalues
      obtain ⟨vm, hm⟩ := exists_values fun n hn => (hall n hn).1
      obtain ⟨vd, hd⟩ := exists_values fun n hn => (hall n hn).2
      refine (right_iff_of_values hslot hsome hm hd hs).mpr (.inr fun n hn => ?_)
      obtain ⟨hin, v, hv, hwant⟩ := hpart n hn
      rw [hd n hin, Option.mem_some_iff] at hv
      exact ⟨hin, hv ▸ hwant⟩

end

end SqlRows
