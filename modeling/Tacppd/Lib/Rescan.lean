/-
# Passes over a list that start again

A general development: a loop goes through a container by an iterator.  An element that is
empty is erased, the iterator is set to the first element, and then the step of the loop moves it
on: the pass goes on at the second element.  When the erased one was the only element the
iterator is moved behind the end, and there is no result.  Another element is visited where it
stands.

So the first element is not seen again once another one has been erased, and the others are
visited once more for every empty one behind them.  The second half is about visits that
are functions and change nothing the second time.
-/
import Mathlib.Data.List.Forall2
import Mathlib.Data.Nat.Init
import Mathlib.Logic.Function.Iterate

namespace Rescan

variable {α : Type*} (empty : α → Prop) [DecidablePred empty] (visit : α → Option α)

/-- The loop: what stands in front of the iterator, and what from it on. -/
def pass (done todo : List α) : Option (List α) :=
  match todo with
  | [] => some done
  | a :: todo =>
    if empty a then
      match _h : done ++ todo with
      | [] => none
      | b :: rest => pass [b] rest
    else
      match visit a with
      | none => none
      | some a' => pass (done ++ [a']) todo
termination_by (done.length + todo.length, todo.length)
decreasing_by
  · have hlen := congrArg List.length _h
    simp only [List.length_append, List.length_cons] at hlen ⊢
    simp only [List.length_nil]
    left
    omega
  · simp only [List.length_append, List.length_cons, List.length_nil]
    rw [show done.length + (0 + 1) + todo.length = done.length + (todo.length + 1) by omega]
    right
    omega

/-- `k` visits one after the other. -/
def visits : ℕ → α → Option α
  | 0, a => some a
  | k + 1, a => (visit a).bind (visits k)

/-- The elements of a list that are not empty, each with the number of its visits. -/
def counted : List α → List (ℕ × α)
  | [] => []
  | a :: l => if empty a then counted l else (l.countP (fun a => empty a) + 1, a) :: counted l

/-- What a pass needs: `V k a` says that `k` visits of `a` go well, `C a` that `a` is good as it
is.  The first element is visited once; if it is empty the second takes its place. -/
def PassOk (V : ℕ → α → Prop) (C : α → Prop) : List α → Prop
  | [] => True
  | a :: l =>
    if empty a then ∃ b l', l = b :: l' ∧ C b ∧ ∀ x ∈ counted empty l', V x.1 x.2
    else V 1 a ∧ ∀ x ∈ counted empty l, V x.1 x.2

section

variable {empty visit} {done todo l : List α} {a a' b : α}

theorem pass_nil : pass empty visit done [] = some done := by
  rw [pass]

theorem pass_only (ha : empty a) : pass empty visit [] [a] = none := by
  rw [pass, if_pos ha]
  rfl

theorem pass_erase (ha : empty a) (h : done ++ todo = b :: l) :
    pass empty visit done (a :: todo) = pass empty visit [b] l := by
  rw [pass, if_pos ha]
  split
  · next heq =>
    rw [heq] at h
    contradiction
  · next b' rest heq =>
    obtain ⟨rfl, rfl⟩ := List.cons.inj (heq.symm.trans h)
    rfl

theorem pass_visit (ha : ¬ empty a) (h : visit a = some a') :
    pass empty visit done (a :: todo) = pass empty visit (done ++ [a']) todo := by
  rw [pass, if_neg ha, h]

theorem pass_stop (ha : ¬ empty a) (h : visit a = none) :
    pass empty visit done (a :: todo) = none := by
  rw [pass, if_neg ha, h]

/-! ## How often an element is visited -/

theorem counted_append (hl : ∀ a ∈ l, ¬ empty a) (todo : List α) :
    counted empty (l ++ todo) =
      l.map (fun a => (todo.countP (fun a => empty a) + 1, a)) ++ counted empty todo := by
  induction l with
  | nil => rfl
  | cons a l ih =>
    have ha := hl a List.mem_cons_self
    have hrest : ∀ b ∈ l, ¬ empty b := fun b hb => hl b (List.mem_cons_of_mem a hb)
    have hcount : (l ++ todo).countP (fun a => empty a) = todo.countP (fun a => empty a) := by
      rw [List.countP_append, List.countP_eq_zero.mpr fun b hb => by simpa using hrest b hb,
        Nat.zero_add]
    rw [List.cons_append, counted, if_neg ha, hcount, ih hrest]
    rfl

/-- **A pass behind its first element**: the elements that have been seen are visited once
more for each empty one that is still to come. -/
theorem pass_eq_mapM (hkeep : ∀ a a', ¬ empty a → visit a = some a' → ¬ empty a') (b : α)
    (hdone : ∀ a ∈ done, ¬ empty a) (todo : List α) :
    pass empty visit (b :: done) todo =
      ((done.map (fun a => (todo.countP (fun a => empty a), a)) ++ counted empty todo).mapM
        fun x => visits visit x.1 x.2).map (b :: ·) := by
  induction hn : done.length + todo.length using Nat.strong_induction_on
    generalizing done todo with
  | _ n ihn =>
    subst hn
    induction todo generalizing done with
    | nil =>
      rw [pass_nil, counted, List.append_nil, List.mapM_map]
      show _ = (done.mapM fun a => (pure (id a) : Option α)).map (b :: ·)
      rw [List.mapM_pure, List.map_id]
      rfl
    | cons a todo ih =>
      by_cases ha : empty a
      · -- the pass starts again, and what has been seen is ahead of it
        rw [pass_erase ha rfl, counted, if_pos ha, List.countP_cons_of_pos (by simpa using ha),
          ← counted_append hdone]
        exact ihn (done ++ todo).length (by simp) (by simp) (done ++ todo) (by simp)
      · rw [counted, if_neg ha, List.countP_cons_of_neg (by simpa using ha), List.mapM_append,
          List.mapM_cons]
        cases hv : visit a with
        | none =>
          rw [pass_stop ha hv]
          simp [visits, hv]
        | some a' =>
          have hdone' : ∀ x ∈ done ++ [a'], ¬ empty x := by
            intro x hx
            rcases List.mem_append.mp hx with hx | hx
            · exact hdone x hx
            · rw [List.mem_singleton.mp hx]
              exact hkeep a a' ha hv
          have hlen : (done ++ [a']).length + todo.length = done.length + (a :: todo).length := by
            simp only [List.length_append, List.length_cons, List.length_nil]
            omega
          rw [pass_visit ha hv, List.cons_append, ih hdone' (by rwa [hlen])]
          simp [visits, hv]

theorem exists_mapM_iff {β γ : Type*} {f : β → Option γ} (C : γ → Prop) (l : List β) :
    (∃ r, l.mapM f = some r ∧ ∀ c ∈ r, C c) ↔ ∀ b ∈ l, ∃ c, f b = some c ∧ C c := by
  induction l with
  | nil => simp
  | cons b l ih =>
    rw [List.forall_mem_cons, ← ih, List.mapM_cons]
    constructor
    · rintro ⟨r, hr, hC⟩
      obtain ⟨c, hc, hr⟩ := Option.bind_eq_some_iff.mp hr
      obtain ⟨r', hr', hr⟩ := Option.bind_eq_some_iff.mp hr
      obtain rfl := Option.some.inj hr
      exact ⟨⟨c, hc, hC c List.mem_cons_self⟩, r', hr', fun x hx =>
        hC x (List.mem_cons_of_mem c hx)⟩
    · rintro ⟨⟨c, hc, hCc⟩, r', hr', hC⟩
      refine ⟨c :: r', ?_, List.forall_mem_cons.mpr ⟨hCc, hC⟩⟩
      rw [hc, hr']
      rfl

/-- **Which passes have a result in which all elements are good**: those with enough good visits
of every element. -/
theorem pass_good_iff (hkeep : ∀ a a', ¬ empty a → visit a = some a' → ¬ empty a')
    (C : α → Prop) (l : List α) :
    (∃ r, pass empty visit [] l = some r ∧ ∀ a ∈ r, C a) ↔
      PassOk empty (fun k a => ∃ a', visits visit k a = some a' ∧ C a') C l := by
  have hbehind : ∀ b l, (∃ r, pass empty visit [b] l = some r ∧ ∀ a ∈ r, C a) ↔
      C b ∧ ∀ x ∈ counted empty l, ∃ a', visits visit x.1 x.2 = some a' ∧ C a' := by
    intro b l
    rw [pass_eq_mapM hkeep b (by simp) l, ← exists_mapM_iff, List.map_nil, List.nil_append]
    simp only [Option.map_eq_some_iff]
    constructor
    · rintro ⟨_, ⟨r, hr, rfl⟩, hC⟩
      exact ⟨hC b List.mem_cons_self, r, hr, fun a ha => hC a (List.mem_cons_of_mem b ha)⟩
    · rintro ⟨hb, r, hr, hC⟩
      exact ⟨b :: r, ⟨r, hr, rfl⟩, List.forall_mem_cons.mpr ⟨hb, hC⟩⟩
  cases l with
  | nil => simp [pass_nil, PassOk]
  | cons a l =>
    rw [PassOk]
    by_cases ha : empty a
    · rw [if_pos ha]
      cases l with
      | nil => simp [pass_only ha]
      | cons b l =>
        rw [pass_erase ha (List.nil_append _), hbehind]
        simp
    · rw [if_neg ha]
      cases hv : visit a with
      | none => simp [pass_stop ha hv, visits, hv]
      | some a' =>
        rw [pass_visit ha hv, List.nil_append, hbehind]
        simp [visits, hv]

theorem of_mem_counted {x : ℕ × α} (hx : x ∈ counted empty l) : ¬ empty x.2 ∧ ∃ k, x.1 = k + 1 := by
  induction l with
  | nil => contradiction
  | cons a l ih =>
    rw [counted] at hx
    split at hx
    · exact ih hx
    · next ha =>
      rcases List.mem_cons.mp hx with rfl | hx
      · exact ⟨ha, _, rfl⟩
      · exact ih hx

theorem passOk_congr {V V' : ℕ → α → Prop} {C C' : α → Prop}
    (hV : ∀ k a, ¬ empty a → (V (k + 1) a ↔ V' (k + 1) a)) (hC : ∀ a, C a ↔ C' a) (l : List α) :
    PassOk empty V C l ↔ PassOk empty V' C' l := by
  have hcounted : ∀ l, (∀ x ∈ counted empty l, V x.1 x.2) ↔ ∀ x ∈ counted empty l, V' x.1 x.2 := by
    intro l
    apply forall₂_congr
    rintro ⟨k, a⟩ hx
    obtain ⟨ha, k, rfl⟩ := of_mem_counted hx
    exact hV k a ha
  cases l with
  | nil => rfl
  | cons a l =>
    rw [PassOk, PassOk]
    split
    · simp only [hC, hcounted]
    · next ha => rw [hV 0 a ha, hcounted]

end

/-! ## Visits that change nothing the second time -/

section

variable (f : α → α)

/-- What stands behind the first element after a pass: the empty elements are gone, and of
the others those that are empty after their visit, if an empty one comes behind them. -/
def swept : List α → List α
  | [] => []
  | a :: l =>
    if empty a ∨ (∃ b ∈ l, empty b) ∧ empty (f a) then swept l else f a :: swept l

/-- All are empty after a visit, and the last one is so before it. -/
def Gone (l : List α) : Prop := (∀ a ∈ l, empty (f a)) ∧ ∀ a ∈ l.getLast?, empty a

variable {empty f} {P Q l : List α} {a b h : α}

theorem swept_of_empty (ha : empty a) : swept empty f (a :: l) = swept empty f l := by
  rw [swept, if_pos (Or.inl ha)]

theorem swept_clean (hf : ∀ a, f (f a) = f a) : ∀ a ∈ swept empty f l, f a = a := by
  induction l with
  | nil => simp [swept]
  | cons b l ih =>
    rw [swept]
    split
    · exact ih
    · intro a ha
      rcases List.mem_cons.mp ha with rfl | ha
      · exact hf b
      · exact ih a ha

/-- In a list that visits do not change, just the empty elements go. -/
theorem swept_append (hP : ∀ a ∈ P, f a = a) (Q : List α) :
    swept empty f (P ++ Q) = P.filter (fun a => ¬ empty a) ++ swept empty f Q := by
  induction P with
  | nil => rfl
  | cons a P ih =>
    have ha := hP a List.mem_cons_self
    have hrest : ∀ b ∈ P, f b = b := fun b hb => hP b (List.mem_cons_of_mem a hb)
    rw [List.cons_append, swept, ha, ih hrest]
    by_cases hempty : empty a
    · rw [if_pos (Or.inl hempty), List.filter_cons_of_neg (by simpa using hempty)]
    · rw [if_neg (by tauto), List.filter_cons_of_pos (by simpa using hempty), List.cons_append]

theorem swept_of_clean (hP : ∀ a ∈ P, f a = a) :
    swept empty f P = P.filter (fun a => ¬ empty a) := by
  have h := @swept_append _ empty _ f P hP []
  rwa [List.append_nil, swept, List.append_nil] at h

/-- **A pass of such visits behind its first element.** -/
theorem pass_eq_swept (hf : ∀ a, f (f a) = f a) (h : α) (hP : ∀ a ∈ P, f a = a) (Q : List α) :
    pass empty (fun a => some (f a)) (h :: P) Q =
      some (h :: ((if ∃ b ∈ Q, empty b then P.filter (fun a => ¬ empty a) else P) ++
        swept empty f Q)) := by
  induction hn : P.length + Q.length using Nat.strong_induction_on generalizing P Q with
  | _ n ihn =>
    subst hn
    induction Q generalizing P with
    | nil =>
      rw [pass_nil, if_neg (by simp), swept, List.append_nil]
    | cons a Q ih =>
      by_cases ha : empty a
      · -- a pass over what has been seen and what is still to come
        have hsome : ∃ b ∈ a :: Q, empty b := ⟨a, List.mem_cons_self, ha⟩
        rw [pass_erase ha (List.cons_append), if_pos hsome, swept_of_empty ha, ← swept_append hP]
        rw [ihn (P ++ Q).length (by simp) (P := []) (by simp) (P ++ Q) (by simp)]
        simp
      · have hP' : ∀ x ∈ P ++ [f a], f x = x := by
          intro x hx
          rcases List.mem_append.mp hx with hx | hx
          · exact hP x hx
          · rw [List.mem_singleton.mp hx]
            exact hf a
        have hlen : (P ++ [f a]).length + Q.length = P.length + (a :: Q).length := by
          simp only [List.length_append, List.length_cons, List.length_nil]
          omega
        have hex : (∃ b ∈ a :: Q, empty b) ↔ ∃ b ∈ Q, empty b := by simp [ha]
        have hvisit : (fun a => some (f a)) a = some (f a) := rfl
        rw [pass_visit ha hvisit, List.cons_append, ih hP' (by rwa [hlen]), swept]
        by_cases hQ : ∃ b ∈ Q, empty b
        · rw [if_pos hQ, if_pos (hex.mpr hQ), List.filter_append]
          by_cases hfa : empty (f a)
          · rw [if_pos (Or.inr ⟨hQ, hfa⟩)]
            simp [hfa]
          · rw [if_neg (by tauto)]
            simp [hfa]
        · rw [if_neg hQ, if_neg (mt hex.mp hQ), if_neg (not_or.mpr ⟨ha, fun h => hQ h.1⟩),
            List.append_assoc]
          rfl

/-- One pass of a list: of an empty first element nothing stays. -/
theorem pass_cons (hf : ∀ a, f (f a) = f a) (ha : ¬ empty a) (l : List α) :
    pass empty (fun a => some (f a)) [] (a :: l) = some (f a :: swept empty f l) := by
  have hvisit : (fun a => some (f a)) a = some (f a) := rfl
  rw [pass_visit ha hvisit, List.nil_append, pass_eq_swept hf (f a) (by simp) l]
  simp

theorem pass_cons_cons (hf : ∀ a, f (f a) = f a) (ha : empty a) (b : α) (l : List α) :
    pass empty (fun a => some (f a)) [] (a :: b :: l) = some (b :: swept empty f l) := by
  rw [pass_erase ha (List.nil_append _), pass_eq_swept hf b (by simp) l]
  simp

theorem swept_eq_nil_iff (hempty : ∀ a, empty a → empty (f a)) :
    swept empty f l = [] ↔ Gone empty f l := by
  induction l with
  | nil => simp [swept, Gone]
  | cons a l ih =>
    rw [swept]
    cases l with
    | nil =>
      simp only [Gone, swept, List.mem_singleton, forall_eq, List.getLast?_singleton,
        Option.mem_some, forall_eq', List.not_mem_nil, false_and, exists_false, or_false]
      constructor
      · intro h
        split at h
        · next ha => exact ⟨hempty a ha, ha⟩
        · contradiction
      · rintro ⟨-, ha⟩
        rw [if_pos ha]
    | cons b l =>
      have hGone : Gone empty f (a :: b :: l) ↔ empty (f a) ∧ Gone empty f (b :: l) := by
        rw [Gone, Gone, List.forall_mem_cons, List.getLast?_cons_cons, and_assoc]
      rw [hGone, ← ih]
      split
      · next h =>
        have hfa : empty (f a) := h.elim (hempty a) And.right
        rw [and_iff_right hfa]
      · next h =>
        constructor
        · intro h
          contradiction
        · rintro ⟨hfa, hnil⟩
          -- the last element is an empty one behind `a`
          have hlast := (ih.mp hnil).2 _ (List.getLast?_eq_some_getLast (List.cons_ne_nil b l))
          exact absurd (Or.inr ⟨⟨_, List.getLast_mem _, hlast⟩, hfa⟩) h

/-- `k` passes over a list end, and then all its elements are as they are after a visit. -/
def Settles (empty : α → Prop) [DecidablePred empty] (f : α → α) (k : ℕ) (l : List α) : Prop :=
  ∃ l', visits (pass empty (fun a => some (f a)) []) k l = some l' ∧ ∀ a ∈ l', f a = a

theorem settles_zero : Settles empty f 0 l ↔ ∀ a ∈ l, f a = a := by
  simp [Settles, visits]

theorem settles_succ (hf : ∀ a, f (f a) = f a) (ha : ¬ empty a) (k : ℕ) (l : List α) :
    Settles empty f (k + 1) (a :: l) ↔ Settles empty f k (f a :: swept empty f l) := by
  rw [Settles, visits, pass_cons hf ha, Option.bind_some, Settles]

theorem settles_succ_empty (hf : ∀ a, f (f a) = f a) (ha : empty a) (k : ℕ) (b : α) (l : List α) :
    Settles empty f (k + 1) (a :: b :: l) ↔ Settles empty f k (b :: swept empty f l) := by
  rw [Settles, visits, pass_cons_cons hf ha, Option.bind_some, Settles]

theorem not_settles_only (ha : empty a) (k : ℕ) : ¬ Settles empty f (k + 1) [a] := by
  rintro ⟨l', h, -⟩
  rw [visits, pass_only ha] at h
  contradiction

/-- One pass: what counts is the first element, or the second one if the first is empty. -/
theorem settles_one_iff (hf : ∀ a, f (f a) = f a) (a : α) (l : List α) :
    Settles empty f 1 (a :: l) ↔ (empty a → ∃ b l', l = b :: l' ∧ f b = b) := by
  by_cases ha : empty a
  · cases l with
    | nil => simpa [ha] using not_settles_only ha 0
    | cons b l =>
      rw [settles_succ_empty hf ha, settles_zero, List.forall_mem_cons,
        and_iff_left (swept_clean hf)]
      simp [ha]
  · rw [settles_succ hf ha, settles_zero, List.forall_mem_cons, and_iff_left (swept_clean hf)]
    simp [ha, hf]

theorem settles_one_swept_iff (hf : ∀ a, f (f a) = f a) (hempty : ∀ a, empty a → empty (f a))
    (a : α) (l : List α) :
    Settles empty f 1 (a :: swept empty f l) ↔ (empty a → ¬ Gone empty f l) := by
  rw [settles_one_iff hf, ← swept_eq_nil_iff hempty]
  apply imp_congr_right
  intro _
  have hclean := @swept_clean _ empty _ f l hf
  cases h : swept empty f l with
  | nil => simp
  | cons b l' => simpa [h] using hclean b (by simp [h])

/-- Two passes: something must be left behind an element that is empty then. -/
theorem settles_two_iff (hf : ∀ a, f (f a) = f a) (hempty : ∀ a, empty a → empty (f a))
    (a : α) (l : List α) :
    Settles empty f 2 (a :: l) ↔
      if empty a then ∃ b l', l = b :: l' ∧ (empty b → ¬ Gone empty f l')
      else empty (f a) → ¬ Gone empty f l := by
  split
  · next ha =>
    cases l with
    | nil => simpa using not_settles_only ha 1
    | cons b l =>
      rw [settles_succ_empty hf ha, settles_one_swept_iff hf hempty]
      simp
  · next ha => rw [settles_succ hf ha, settles_one_swept_iff hf hempty]

/-! ### Three passes and more -/

/-- A first element that stays is never erased. -/
theorem settles_of_head (hf : ∀ a, f (f a) = f a) (hempty : ∀ a, empty a → empty (f a))
    (ha : ¬ empty (f a)) (k : ℕ) (l : List α) : Settles empty f (k + 1) (a :: l) := by
  have hne : ¬ empty a := fun h => ha (hempty a h)
  induction k generalizing a l with
  | zero => exact (settles_one_iff hf a l).mpr fun h => absurd h hne
  | succ k ih =>
    rw [settles_succ hf hne]
    exact ih (by rwa [hf]) (swept empty f l) ha

/-- Behind an element that is empty, one that stays comes to the front. -/
theorem settles_next (hf : ∀ a, f (f a) = f a) (hempty : ∀ a, empty a → empty (f a))
    (ha : empty a) (hb : ¬ empty (f b)) (hl : ∀ x ∈ b :: l, f x = x) (k : ℕ) :
    Settles empty f (k + 1) (a :: b :: l) := by
  rw [settles_succ_empty hf ha]
  cases k with
  | zero =>
    rw [settles_zero, List.forall_mem_cons]
    exact ⟨hl b List.mem_cons_self, swept_clean hf⟩
  | succ k => exact settles_of_head hf hempty hb k _

/-- The elements that stay are not swept. -/
theorem exists_mem_swept_iff (hf : ∀ a, f (f a) = f a) (hempty : ∀ a, empty a → empty (f a)) :
    (∃ a ∈ swept empty f l, ¬ empty (f a)) ↔ ∃ a ∈ l, ¬ empty (f a) := by
  induction l with
  | nil => rfl
  | cons a l ih =>
    rw [swept]
    split
    · next h =>
      have hfa : empty (f a) := h.elim (hempty a) And.right
      rw [ih, List.exists_mem_cons_iff]
      simp [hfa]
    · rw [List.exists_mem_cons_iff, List.exists_mem_cons_iff, ih, hf]

theorem swept_of_empties (hl : ∀ a ∈ l, empty a) : swept empty f l = [] := by
  induction l with
  | nil => rfl
  | cons a l ih =>
    rw [swept_of_empty (hl a List.mem_cons_self)]
    exact ih fun b hb => hl b (List.mem_cons_of_mem a hb)

/-- After a pass over a list without an empty element behind it, the second one stays. -/
theorem swept_eq_cons (hl : ∀ a ∈ l, f a = a) (hlive : ∃ a ∈ l, ¬ empty (f a)) :
    ∃ b l', swept empty f l = b :: l' ∧ ¬ empty (f b) ∧ ∀ x ∈ b :: l', f x = x := by
  have hmem : ∀ x ∈ l.filter (fun a => ¬ empty a), f x = x ∧ ¬ empty x := by
    intro x hx
    rw [List.mem_filter, decide_eq_true_eq] at hx
    exact ⟨hl x hx.1, hx.2⟩
  obtain ⟨a, ha, hfa⟩ := hlive
  rw [swept_of_clean hl]
  cases h : l.filter (fun a => ¬ empty a) with
  | nil =>
    have hnot := List.filter_eq_nil_iff.mp h a ha
    rw [hl a ha] at hfa
    exact absurd (decide_eq_true hfa) hnot
  | cons b l' =>
    rw [h] at hmem
    have hb := hmem b List.mem_cons_self
    exact ⟨b, l', rfl, by rw [hb.1]; exact hb.2, fun x hx => (hmem x hx).1⟩

/-- Two passes and more, over a list that is as after a visit behind its first element. -/
theorem settles_add_two_iff (hf : ∀ a, f (f a) = f a) (hempty : ∀ a, empty a → empty (f a))
    (hl : ∀ x ∈ l, f x = x) (a : α) (k : ℕ) :
    Settles empty f (k + 2) (a :: l) ↔ ∃ x ∈ a :: l, ¬ empty (f x) := by
  by_cases hlive : ∃ x ∈ l, ¬ empty (f x)
  · -- an element that stays is the first one, or comes there
    rw [iff_true_right (List.exists_mem_cons_of_exists hlive)]
    by_cases ha : empty a
    · cases l with
      | nil => simp at hlive
      | cons b l =>
        have hl' : ∀ x ∈ l, f x = x := fun x hx => hl x (List.mem_cons_of_mem b hx)
        rw [settles_succ_empty hf ha]
        by_cases hb : empty (f b)
        · have hlive' : ∃ x ∈ l, ¬ empty (f x) := by
            simpa [hb] using hlive
          obtain ⟨c, l', heq, hc, hclean⟩ := swept_eq_cons hl' hlive'
          have hbe : empty b := by rwa [hl b List.mem_cons_self] at hb
          rw [heq]
          exact settles_next hf hempty hbe hc hclean k
        · exact settles_of_head hf hempty hb k _
    · rw [settles_succ hf ha]
      by_cases hfa : empty (f a)
      · obtain ⟨c, l', heq, hc, hclean⟩ := swept_eq_cons hl hlive
        rw [heq]
        exact settles_next hf hempty hfa hc hclean k
      · exact settles_of_head hf hempty (by rwa [hf]) k _
  · -- behind the first element there are only empty ones
    have hall : ∀ x ∈ l, empty x := by
      intro x hx
      by_contra hxe
      apply hlive
      exact ⟨x, hx, by rwa [hl x hx]⟩
    have hiff : (∃ x ∈ a :: l, ¬ empty (f x)) ↔ ¬ empty (f a) := by
      rw [List.exists_mem_cons_iff, or_iff_left hlive]
    rw [hiff]
    by_cases ha : empty a
    · rw [iff_false_right (not_not.mpr (hempty a ha))]
      cases l with
      | nil => exact not_settles_only ha (k + 1)
      | cons b l =>
        rw [settles_succ_empty hf ha,
          swept_of_empties fun x hx => hall x (List.mem_cons_of_mem b hx)]
        exact not_settles_only (hall b List.mem_cons_self) k
    · rw [settles_succ hf ha, swept_of_empties hall]
      constructor
      · intro h hfa
        exact not_settles_only hfa k h
      · intro hfa
        exact settles_of_head hf hempty (by rwa [hf]) k _

/-- **Three passes and more end well on the lists with an element that stays.** -/
theorem settles_add_three_iff (hf : ∀ a, f (f a) = f a) (hempty : ∀ a, empty a → empty (f a))
    (hne : l ≠ []) (k : ℕ) : Settles empty f (k + 3) l ↔ ∃ a ∈ l, ¬ empty (f a) := by
  cases l with
  | nil => contradiction
  | cons a l =>
    by_cases ha : empty a
    · cases l with
      | nil =>
        rw [iff_false_left (not_settles_only ha (k + 2))]
        simpa using hempty a ha
      | cons b l =>
        rw [settles_succ_empty hf ha, settles_add_two_iff hf hempty (swept_clean hf),
          List.exists_mem_cons_iff, List.exists_mem_cons_iff, exists_mem_swept_iff hf hempty,
          List.exists_mem_cons_iff, or_iff_right (not_not.mpr (hempty a ha))]
    · rw [settles_succ hf ha, settles_add_two_iff hf hempty (swept_clean hf),
        List.exists_mem_cons_iff, exists_mem_swept_iff hf hempty, hf, List.exists_mem_cons_iff]

end

end Rescan
