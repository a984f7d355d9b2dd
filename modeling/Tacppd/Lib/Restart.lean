/-
# Loops that start again behind the front

A general development: `for(i = 0; i < size; i++)` over a list that its body changes.  The
body looks at the element at the index.  It leaves it, or it takes it: then the list is
changed and the index is set to 0, and the step of the loop makes that 1.  So what stands at
the front after the first change is never looked at again.

When the element that is taken goes out of the list, and what comes back for it at the end
is left, the loop ends and its result is known (`loop_settles`); a loop that has ended has
looked at everything behind the front (`looked_of_loop`).
-/
import Mathlib.Data.List.Basic
import Mathlib.Data.List.Pairwise
import Mathlib.Data.List.Perm.Basic
import Mathlib.Tactic.Common

namespace Restart

variable {α : Type*}

/-- What a look at an element comes to.  A look that fails stops the loop. -/
inductive Look (α : Type*)
  | stop
  | leave
  | take (r : α)
  deriving DecidableEq, Repr

namespace Look

def leaves : Look α → Bool
  | leave => true
  | _ => false

def takes : Look α → Bool
  | take _ => true
  | _ => false

/-- What comes back to the list for an element that is taken. -/
def returned (back : α → List α) : Look α → List α
  | take r => back r
  | leave => []
  | stop => []

end Look

/-- The loop.  The result is the list with the elements that were taken, in order. -/
def loop (look : α → Look α) (act : List α → ℕ → α → List α) :
    ℕ → ℕ → List α → List α → Option (List α × List α)
  | 0, _, _, _ => none
  | n + 1, i, l, log =>
    match l[i]? with
    | none => some (l, log)
    | some a =>
      match look a with
      | .stop => none
      | .leave => loop look act n (i + 1) l log
      | .take r => loop look act n 1 (act l i r) (log ++ [a])

variable {look : α → Look α} {act : List α → ℕ → α → List α}
  {n i : ℕ} {l log : List α}

/-! ## One round -/

theorem loop_end (h : l.length ≤ i) : loop look act (n + 1) i l log = some (l, log) := by
  rw [loop, List.getElem?_eq_none h]

theorem loop_stop {a : α} (h : l[i]? = some a) (ha : look a = .stop) :
    loop look act (n + 1) i l log = none := by
  simp only [loop, h, ha]

theorem loop_leave {a : α} (h : l[i]? = some a) (ha : look a = .leave) :
    loop look act (n + 1) i l log = loop look act n (i + 1) l log := by
  simp only [loop, h, ha]

theorem loop_take {a r : α} (h : l[i]? = some a) (ha : look a = .take r) :
    loop look act (n + 1) i l log = loop look act n 1 (act l i r) (log ++ [a]) := by
  simp only [loop, h, ha]

/-- More rounds change nothing once the loop has ended. -/
theorem loop_add {out : List α × List α} (k : ℕ) (hloop : loop look act n i l log = some out) :
    loop look act (n + k) i l log = some out := by
  induction n generalizing i l log with
  | zero => simp [loop] at hloop
  | succ n ih =>
    rw [Nat.add_right_comm]
    cases hget : l[i]? with
    | none =>
      simp only [loop, hget] at hloop ⊢
      exact hloop
    | some a =>
      rcases hlooka : look a with _ | _ | r
      · rw [loop_stop hget hlooka] at hloop
        contradiction
      · rw [loop_leave hget hlooka] at hloop ⊢
        exact ih hloop
      · rw [loop_take hget hlooka] at hloop ⊢
        exact ih hloop

/-- What has been taken before only stands in front. -/
theorem loop_log (n i : ℕ) (l log : List α) :
    loop look act n i l log = (loop look act n i l []).map fun out => (out.1, log ++ out.2) := by
  induction n generalizing i l log with
  | zero => rfl
  | succ n ih =>
    cases hget : l[i]? with
    | none => simp only [loop, hget, Option.map_some, List.append_nil]
    | some a =>
      rcases hlooka : look a with _ | _ | r
      · rw [loop_stop hget hlooka, loop_stop hget hlooka, Option.map_none]
      · rw [loop_leave hget hlooka, loop_leave hget hlooka, ih]
      · rw [loop_take hget hlooka, loop_take hget hlooka, ih, ih _ _ ([] ++ [a]), Option.map_map]
        simp [Function.comp_def]

/-- The result does not depend on the number of rounds. -/
theorem loop_unique {m : ℕ} {out out' : List α × List α}
    (hn : loop look act n i l log = some out) (hm : loop look act m i l log = some out') :
    out = out' := by
  have hsame := loop_add n hm
  rw [Nat.add_comm, loop_add m hn] at hsame
  exact Option.some.inj hsame

/-! ## Behind the front -/

/-- The element behind the front and what has been passed. -/
theorem getElem?_passed (h : α) (pre : List α) (a : α) (post : List α) :
    (h :: (pre ++ a :: post))[pre.length + 1]? = some a := by
  simp

/-- What has been passed, with one element more. -/
theorem leave_concat {pre : List α} {a : α} (hpre : ∀ u ∈ pre, look u = .leave)
    (ha : look a = .leave) : ∀ u ∈ pre ++ [a], look u = .leave := by
  intro u hu
  rcases List.mem_append.mp hu with hu | hu
  · exact hpre u hu
  · rwa [List.mem_singleton.mp hu]

/-- The elements that are left. -/
def left (look : α → Look α) (l : List α) : List α := l.filter fun a => (look a).leaves

/-- The elements that are taken. -/
def taken (look : α → Look α) (l : List α) : List α := l.filter fun a => (look a).takes

/-- What comes back for them. -/
def cameBack (look : α → Look α) (back : α → List α) (l : List α) : List α :=
  l.flatMap fun a => (look a).returned back

section Lists

variable {back : α → List α} {a r : α} {l' : List α}

theorem left_append : left look (l ++ l') = left look l ++ left look l' := List.filter_append ..

theorem taken_append : taken look (l ++ l') = taken look l ++ taken look l' :=
  List.filter_append ..

theorem cameBack_append :
    cameBack look back (l ++ l') = cameBack look back l ++ cameBack look back l' :=
  List.flatMap_append ..

theorem left_cons_leave (ha : look a = .leave) : left look (a :: l) = a :: left look l := by
  rw [left, List.filter_cons, ha, if_pos (by rfl), left]

theorem left_cons_take (ha : look a = .take r) : left look (a :: l) = left look l := by
  rw [left, List.filter_cons, ha, if_neg (by exact Bool.false_ne_true), left]

theorem taken_cons_leave (ha : look a = .leave) : taken look (a :: l) = taken look l := by
  rw [taken, List.filter_cons, ha, if_neg (by exact Bool.false_ne_true), taken]

theorem taken_cons_take (ha : look a = .take r) : taken look (a :: l) = a :: taken look l := by
  rw [taken, List.filter_cons, ha, if_pos (by rfl), taken]

theorem cameBack_cons_leave (ha : look a = .leave) :
    cameBack look back (a :: l) = cameBack look back l := by
  rw [cameBack, List.flatMap_cons, ha, Look.returned, List.nil_append, cameBack]

theorem cameBack_cons_take (ha : look a = .take r) :
    cameBack look back (a :: l) = back r ++ cameBack look back l := by
  rw [cameBack, List.flatMap_cons, ha, Look.returned, cameBack]

theorem left_of_leave (h : ∀ u ∈ l, look u = .leave) : left look l = l := by
  induction l with
  | nil => rfl
  | cons a l ih =>
    rw [left_cons_leave (h a (List.mem_cons_self ..)),
      ih fun u hu => h u (List.mem_cons_of_mem a hu)]

theorem taken_of_leave (h : ∀ u ∈ l, look u = .leave) : taken look l = [] := by
  induction l with
  | nil => rfl
  | cons a l ih =>
    rw [taken_cons_leave (h a (List.mem_cons_self ..)),
      ih fun u hu => h u (List.mem_cons_of_mem a hu)]

theorem cameBack_of_leave (h : ∀ u ∈ l, look u = .leave) : cameBack look back l = [] := by
  induction l with
  | nil => rfl
  | cons a l ih =>
    rw [cameBack_cons_leave (h a (List.mem_cons_self ..)),
      ih fun u hu => h u (List.mem_cons_of_mem a hu)]

/-- An element after the loop, when what comes back for it is the element that replaces it. -/
def Look.after (a : α) : Look α → α
  | take r => r
  | leave => a
  | stop => a

/-- What is left and what came back are the elements after the loop, in another order. -/
theorem left_append_cameBack_perm (h : ∀ u ∈ l, look u ≠ .stop) :
    (left look l ++ cameBack look (fun r => [r]) l).Perm (l.map fun u => (look u).after u) := by
  induction l with
  | nil => exact List.Perm.refl _
  | cons a l ih =>
    have ih := ih fun u hu => h u (List.mem_cons_of_mem a hu)
    rw [List.map_cons]
    rcases hlooka : look a with _ | _ | r
    · exact absurd hlooka (h a (List.mem_cons_self ..))
    · rw [left_cons_leave hlooka, cameBack_cons_leave hlooka]
      exact ih.cons a
    · rw [left_cons_take hlooka, cameBack_cons_take hlooka]
      exact List.perm_middle.trans (ih.cons r)

end Lists

/-! ## Loops that settle

`free x r` says that `x` is not in the way when `r` is taken. -/

section Settles

variable {back : α → List α} {free : α → α → Prop}

/-- What is taken goes out, and what comes back for it goes to the end, as long as nothing
is in the way. -/
def TakesOut (look : α → Look α) (act : List α → ℕ → α → List α) (back : α → List α)
    (free : α → α → Prop) : Prop :=
  ∀ h pre a post r, look a = .take r → (∀ x ∈ h :: pre, free x r) →
    act (h :: (pre ++ a :: post)) (pre.length + 1) r = h :: (pre ++ post ++ back r)

/-- Nothing that is left is in the way of something behind it. -/
def Unblocked (look : α → Look α) (free : α → α → Prop) (l : List α) : Prop :=
  l.Pairwise fun x u => ∀ r, look x = .leave → look u = .take r → free x r

theorem unblocked_of_leave (h : ∀ u ∈ l, look u = .leave) : Unblocked look free l := by
  apply List.pairwise_of_forall_mem_list
  intro x _ u hu r _ hr
  rw [h u hu] at hr
  contradiction

/-- What is left stands in nobody's way at the end. -/
theorem unblocked_append_of_leave {l' : List α} (h : Unblocked look free l)
    (h' : ∀ u ∈ l', look u = .leave) : Unblocked look free (l ++ l') := by
  refine List.pairwise_append.mpr ⟨h, unblocked_of_leave h', ?_⟩
  intro x _ u hu r _ hr
  rw [h' u hu] at hr
  contradiction

/-- **A loop that settles**: it takes everything behind the front that is to be taken, in
order; what is left stays in order, and what came back follows. -/
theorem loop_settles (hact : TakesOut look act back free) {h : α} {pre rest : List α}
    (hpre : ∀ u ∈ pre, look u = .leave) (hlook : ∀ u ∈ rest, look u ≠ .stop)
    (hback : ∀ u ∈ rest, ∀ r, look u = .take r → ∀ x ∈ back r, look x = .leave)
    (hfront : ∀ u ∈ rest, ∀ r, look u = .take r → ∀ x ∈ h :: pre, free x r)
    (hfree : Unblocked look free rest) :
    ∃ n, loop look act n (pre.length + 1) (h :: (pre ++ rest)) log =
      some (h :: (pre ++ left look rest ++ cameBack look back rest),
        log ++ taken look rest) := by
  -- the number of elements still to be taken gets smaller, or the rest gets shorter
  induction hk : (taken look rest).length using Nat.strongRecOn
    generalizing pre rest log with
  | ind k ihk =>
  induction rest generalizing pre with
  | nil => exact ⟨1, by rw [loop_end (by simp)]; simp [left, taken, cameBack]⟩
  | cons a rest ih =>
    have hrest : ∀ u ∈ rest, u ∈ a :: rest := fun u hu => List.mem_cons_of_mem a hu
    have hpair := List.pairwise_cons.mp hfree
    rcases hlooka : look a with _ | _ | r
    · exact absurd hlooka (hlook a (List.mem_cons_self ..))
    · -- the element is passed
      have hfront' : ∀ u ∈ rest, ∀ r, look u = .take r → ∀ x ∈ h :: (pre ++ [a]), free x r := by
        intro u hu r hr x hx
        rw [← List.cons_append] at hx
        rcases List.mem_append.mp hx with hx | hx
        · exact hfront u (hrest u hu) r hr x hx
        · rw [List.mem_singleton.mp hx]
          exact hpair.1 u hu r hlooka hr
      obtain ⟨n, hn⟩ := ih (leave_concat hpre hlooka) (fun u hu => hlook u (hrest u hu))
        (fun u hu => hback u (hrest u hu)) hfront' hpair.2
        (by rw [← hk, taken_cons_leave hlooka])
      refine ⟨n + 1, ?_⟩
      rw [loop_leave (getElem?_passed h pre a rest) hlooka, left_cons_leave hlooka,
        taken_cons_leave hlooka, cameBack_cons_leave hlooka]
      simpa using hn
    · -- the element is taken, and the loop looks at all the others again
      have hbackr := hback a (List.mem_cons_self ..) r hlooka
      have hact' := hact h pre a rest r hlooka (hfront a (List.mem_cons_self ..) r hlooka)
      have hcount : (taken look (pre ++ rest ++ back r)).length < k := by
        rw [taken_append, taken_append, taken_of_leave hpre, taken_of_leave hbackr,
          List.nil_append, List.append_nil, ← hk, taken_cons_take hlooka, List.length_cons]
        exact Nat.lt_succ_self _
      have hsplit : ∀ u ∈ pre ++ rest ++ back r, u ∈ rest ∨ look u = .leave := by
        intro u hu
        rcases List.mem_append.mp hu with hu | hu
        · rcases List.mem_append.mp hu with hu | hu
          · exact .inr (hpre u hu)
          · exact .inl hu
        · exact .inr (hbackr u hu)
      have htaken : ∀ u ∈ pre ++ rest ++ back r, ∀ r, look u = .take r → u ∈ rest := by
        intro u hu r hr
        rcases hsplit u hu with hu | hu
        · exact hu
        · rw [hu] at hr
          contradiction
      have hlook' : ∀ u ∈ pre ++ rest ++ back r, look u ≠ .stop := by
        intro u hu
        rcases hsplit u hu with hu | hu
        · exact hlook u (hrest u hu)
        · simp [hu]
      have hfront' : ∀ u ∈ pre ++ rest ++ back r, ∀ r, look u = .take r →
          ∀ x ∈ h :: [], free x r := by
        intro u hu r hr x hx
        rw [List.mem_singleton.mp hx]
        exact hfront u (hrest u (htaken u hu r hr)) r hr h (List.mem_cons_self ..)
      have hfree' : Unblocked look free (pre ++ rest ++ back r) := by
        refine unblocked_append_of_leave ?_ hbackr
        refine List.pairwise_append.mpr ⟨unblocked_of_leave hpre, hpair.2, ?_⟩
        intro x hx u hu r _ hr
        exact hfront u (hrest u hu) r hr x (List.mem_cons_of_mem h hx)
      obtain ⟨n, hn⟩ := @ihk _ hcount (log ++ [a]) [] (pre ++ rest ++ back r) (by simp) hlook'
        (fun u hu r hr => hback u (hrest u (htaken u hu r hr)) r hr) hfront' hfree' rfl
      refine ⟨n + 1, ?_⟩
      rw [loop_take (getElem?_passed h pre a rest) hlooka, hact', left_cons_take hlooka,
        taken_cons_take hlooka, cameBack_cons_take hlooka]
      rw [left_append, left_append, left_of_leave hpre, left_of_leave hbackr, taken_append,
        taken_append, taken_of_leave hpre, taken_of_leave hbackr, cameBack_append,
        cameBack_append, cameBack_of_leave hpre, cameBack_of_leave hbackr] at hn
      simpa using hn

/-- A loop that has ended has looked at everything behind the front, and at what came back. -/
theorem looked_of_loop (hact : TakesOut look act back fun _ _ => True)
    (hback : ∀ a r, look a = .take r → ∀ x ∈ back r, (look x).takes = false) {h : α}
    {pre rest : List α} {out : List α × List α} (hpre : ∀ u ∈ pre, look u = .leave)
    (hloop : loop look act n (pre.length + 1) (h :: (pre ++ rest)) log = some out) :
    ∀ u ∈ rest, look u ≠ .stop ∧ ∀ r, look u = .take r → ∀ x ∈ back r, look x = .leave := by
  induction n generalizing pre rest log with
  | zero => simp [loop] at hloop
  | succ n ih =>
    cases rest with
    | nil => simp
    | cons a rest =>
      have hget := getElem?_passed h pre a rest
      rcases hlooka : look a with _ | _ | r
      · rw [loop_stop hget hlooka] at hloop
        contradiction
      · rw [loop_leave hget hlooka] at hloop
        have hlooked := @ih log (pre ++ [a]) rest (leave_concat hpre hlooka)
          (by simpa using hloop)
        intro u hu
        rcases List.mem_cons.mp hu with rfl | hu
        · simp [hlooka]
        · exact hlooked u hu
      · rw [loop_take hget hlooka, hact h pre a rest r hlooka fun _ _ => trivial] at hloop
        have hlooked := @ih (log ++ [a]) [] (pre ++ rest ++ back r) (by simp)
          (by simpa using hloop)
        intro u hu
        rcases List.mem_cons.mp hu with rfl | hu
        · refine ⟨by simp [hlooka], ?_⟩
          intro r' hr' x hx
          obtain rfl : r = r' := by simpa [hlooka] using hr'
          have hx' := hlooked x (List.mem_append_right _ hx)
          have htakes := hback u r hlooka x hx
          rcases hlookx : look x with _ | _ | y
          · exact absurd hlookx hx'.1
          · rfl
          · rw [hlookx] at htakes
            contradiction
        · exact hlooked u (List.mem_append_left _ (List.mem_append_right _ hu))

end Settles

end Restart
