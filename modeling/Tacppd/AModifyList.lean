/-
# The list of authorization pairs

What `AModify::modifyer` makes of the whole list of a record.  The loop moves every pair that
it evaluates to the end and goes on behind the first (`Tacppd.Lib.Restart`), so it ends, and
what it returns is known from what it does with each pair.

A record comes out as it should when its first two pairs are not both dynamic, and the names,
the values and the commands stay in their buffers (`modifyer_evaluates_iff`).
-/
import Tacppd.AModify
import Mathlib.Algebra.Order.Ring.Nat
import Mathlib.Data.List.Forall2

namespace Tacppd

/-! ## The whole list -/

namespace AModify

variable (m : AModify)

/-- The loop can look at a pair and evaluate it. -/
def Evaluates (a : UserAvp) : Prop := a.Readable ∧ (a.Dynamic → ∃ res, m.Result a res)

/-- The loop can also look at what comes back for it. -/
def Handled (a : UserAvp) : Prop :=
  m.Evaluates a ∧ ∀ res, m.Result a res → (cstr res).length < 300

/-- Every pair that the loop looks at, and every new one, stays in the buffers.  A new pair is
not looked at when it is the only one, and the second pair is not when the first is dynamic. -/
def Looked : List UserAvp → Prop
  | [] => True
  | [a] => m.Evaluates a
  | a :: b :: rest => m.Handled a ∧ (¬ a.Dynamic → m.Handled b) ∧ ∀ u ∈ rest, m.Handled u

variable {m} {a b h : UserAvp} {rest avp : List UserAvp} {log : List UserAvp} {n : ℕ}
  {out : List UserAvp × List UserAvp}

/-- What the loop looks at, by what it does. -/
theorem look_ne_stop_iff : m.look a ≠ .stop ↔ m.Evaluates a := by
  rcases look_cases m a with ⟨hlook, hbad⟩ | ⟨hlook, hread, hdyn⟩ | ⟨res, hlook, hread, _, hres⟩
  · rw [hlook]
    exact ⟨fun h => absurd rfl h, fun h => absurd h hbad⟩
  · rw [hlook]
    exact ⟨fun _ => ⟨hread, fun h => absurd h hdyn⟩, fun _ h => by contradiction⟩
  · rw [hlook]
    exact ⟨fun _ => ⟨hread, fun _ => ⟨res, hres⟩⟩, fun _ h => by contradiction⟩

theorem look_of_not_dynamic (hdyn : ¬ a.Dynamic) (h : m.Evaluates a) : m.look a = .leave := by
  rcases look_cases m a with ⟨_, hbad⟩ | ⟨hlook, _, _⟩ | ⟨_, _, _, hdyn', _⟩
  · exact absurd h hbad
  · exact hlook
  · exact absurd hdyn' hdyn

theorem look_of_dynamic (hdyn : a.Dynamic) (h : m.Evaluates a) :
    ∃ res, m.Result a res ∧ m.look a = .take (made a res) := by
  rcases look_cases m a with ⟨_, hbad⟩ | ⟨_, _, hnot⟩ | ⟨res, hlook, _, _, hres⟩
  · exact absurd h hbad
  · exact absurd hdyn hnot
  · exact ⟨res, hres, hlook⟩

theorem look_eq_take_iff {r : UserAvp} :
    m.look a = .take r ↔ m.Evaluates a ∧ ∃ res, m.Result a res ∧ r = made a res := by
  constructor
  · intro hlook
    have hev : m.Evaluates a := look_ne_stop_iff.mp (by rw [hlook]; exact fun h => by contradiction)
    rcases look_cases m a with ⟨hlook', _⟩ | ⟨hlook', _, _⟩ | ⟨res, hlook', _, _, hres⟩
    · rw [hlook] at hlook'
      contradiction
    · rw [hlook] at hlook'
      contradiction
    · rw [hlook] at hlook'
      exact ⟨hev, res, hres, Restart.Look.take.inj hlook'⟩
  · rintro ⟨hev, res, hres, rfl⟩
    obtain ⟨res', hres', hlook⟩ := look_of_dynamic hres.dynamic hev
    rw [hlook, hres.unique hres']

/-- A pair is handled when the loop passes what comes back for it. -/
theorem handled_iff (hplain : m.Plain) :
    m.Handled a ↔ m.look a ≠ .stop ∧ ∀ r, m.look a = .take r → m.look r = .leave := by
  rw [look_ne_stop_iff, Handled]
  refine and_congr_right fun hev => ⟨?_, ?_⟩
  · intro hshort r hr
    obtain ⟨_, res, hres, rfl⟩ := look_eq_take_iff.mp hr
    exact (look_made hplain hres).mpr (hshort res hres)
  · intro hback res hres
    exact (look_made hplain hres).mp
      (hback _ (look_eq_take_iff.mpr ⟨hev, res, hres, rfl⟩))

/-- `avp_set` takes out the pair at its index. -/
theorem takesOut_avpSet :
    Restart.TakesOut m.look avpSet (fun r => [r]) fun _ _ => True := by
  intro h pre a post r _ _
  rw [avpSet, ← List.cons_append, List.eraseIdx_append_of_length_le (by simp)]
  simp

/-- From the second pair on. -/
theorem loop_behind (hplain : m.Plain) (hrest : ∀ u ∈ rest, m.Handled u) :
    ∃ n, Restart.loop m.look avpSet n 1 (h :: rest) log =
      some (h :: (Restart.left m.look rest ++ Restart.cameBack m.look (fun r => [r]) rest),
        log ++ Restart.taken m.look rest) := by
  have hall := fun u hu => (handled_iff hplain).mp (hrest u hu)
  have hsettles := @Restart.loop_settles _ m.look avpSet log (fun r => [r]) (fun _ _ => True)
    takesOut_avpSet h [] rest (by simp) (fun u hu => (hall u hu).1)
    (fun u hu r hr x hx => by rw [List.mem_singleton.mp hx]; exact (hall u hu).2 r hr)
    (fun _ _ _ _ _ _ => trivial)
    (List.pairwise_of_forall_mem_list fun _ _ _ _ _ _ _ => trivial)
  simpa using hsettles

theorem handled_of_loop (hplain : m.Plain)
    (hloop : Restart.loop m.look avpSet n 1 (h :: rest) log = some out) :
    ∀ u ∈ rest, m.Handled u := by
  have hback : ∀ a r, m.look a = .take r → ∀ x ∈ [r], (m.look x).takes = false := by
    intro a r hr x hx
    obtain ⟨_, res, hres, rfl⟩ := look_eq_take_iff.mp hr
    rw [List.mem_singleton.mp hx]
    cases hlook : m.look (made a res) with
    | stop => rfl
    | leave => rfl
    | take r' =>
      obtain ⟨_, _, hres', _⟩ := look_eq_take_iff.mp hlook
      exact absurd hres'.dynamic (not_dynamic_made hplain hres)
  have hlooked := @Restart.looked_of_loop _ m.look avpSet n log (fun r => [r]) takesOut_avpSet
    hback h [] rest out (by simp) hloop
  intro u hu
  obtain ⟨hstop, hreturned⟩ := hlooked u hu
  exact (handled_iff hplain).mpr ⟨hstop, fun r hr => hreturned r hr r (List.mem_singleton_self r)⟩

end AModify

/-! ## The record that is returned -/

instance (a : UserAvp) : Decidable a.Dynamic :=
  decidable_of_iff ((AModify.chosen a.value).isSome = true) (by
    rw [← not_iff_not, ← AModify.chosen_eq_none_iff, Bool.not_eq_true, Option.isSome_eq_false_iff,
      Option.isNone_iff_eq_none])

namespace AModify

variable (m : AModify)

/-- What is to become of a pair: a dynamic one gets the result of its command as its value, any
other stays as it is. -/
structure Becomes (a b : UserAvp) : Prop where
  dynamic : a.Dynamic → ∃ res, m.Result a res ∧ b = { a with avp := a.attr ++ 61 :: res }
  other : ¬ a.Dynamic → b = a

/-- The dynamic pairs of a record are evaluated once each, `calls` are the evaluations; no
other pair is changed, and none is lost or there twice. -/
structure Evaluated (ax d : DbUser) (calls : List UserAvp) : Prop where
  fields : d = { ax with avp := d.avp }
  once : calls.Perm (ax.avp.filter fun a => decide a.Dynamic)
  avp : ∃ l, List.Forall₂ m.Becomes ax.avp l ∧ d.avp.Perm l
  noneLeft : ∀ a ∈ d.avp, ¬ a.Dynamic

/-- The first two pairs are not both dynamic. -/
def FrontFree (avp : List UserAvp) : Prop :=
  ∀ a b rest, avp = a :: b :: rest → a.Dynamic → ¬ b.Dynamic

/-- When the loop evaluates a record as it should. -/
structure Regular (avp : List UserAvp) : Prop where
  looked : m.Looked avp
  front : FrontFree avp
  name : ∀ a ∈ avp, a.Dynamic → a.attr.length < 200

variable {m} {a b : UserAvp} {avp rest : List UserAvp} {n : ℕ} {out : List UserAvp × List UserAvp}

theorem avpSet_first (a b r : UserAvp) (rest : List UserAvp) :
    avpSet (a :: b :: rest) 0 r = b :: (rest ++ [r]) := rfl

/-- A dynamic pair that is looked at is handled when the new one is. -/
theorem handled_of_made {r : UserAvp} (hplain : m.Plain) (hlook : m.look a = .take r)
    (hr : m.Handled r) : m.Handled a := by
  obtain ⟨hev, res, hres, rfl⟩ := look_eq_take_iff.mp hlook
  refine (handled_iff hplain).mpr ⟨look_ne_stop_iff.mpr hev, ?_⟩
  intro r hr'
  obtain ⟨_, res', hres', rfl⟩ := look_eq_take_iff.mp hr'
  rw [← hres.unique hres']
  exact look_of_not_dynamic (not_dynamic_made hplain hres) hr.1

theorem looked_of_run (hplain : m.Plain)
    (hloop : Restart.loop m.look avpSet n 0 avp [] = some out) : m.Looked avp := by
  cases n with
  | zero => simp [Restart.loop] at hloop
  | succ n =>
  cases avp with
  | nil => trivial
  | cons a rest =>
    have hget : (a :: rest)[0]? = some a := rfl
    rcases hlook : m.look a with _ | _ | r
    · rw [Restart.loop_stop hget hlook] at hloop
      contradiction
    · rw [Restart.loop_leave hget hlook] at hloop
      have hhandled := handled_of_loop hplain hloop
      have ha : m.Handled a := (handled_iff hplain).mpr ⟨by simp [hlook], by simp [hlook]⟩
      cases rest with
      | nil => exact ha.1
      | cons b rest =>
        have hmem : ∀ u ∈ rest, u ∈ b :: rest := fun u hu => List.mem_cons_of_mem b hu
        exact ⟨ha, fun _ => hhandled b (List.mem_cons_self ..), fun u hu => hhandled u (hmem u hu)⟩
    · rw [Restart.loop_take hget hlook] at hloop
      obtain ⟨hev, res, hres, _⟩ := look_eq_take_iff.mp hlook
      cases rest with
      | nil => exact hev
      | cons b rest =>
        rw [avpSet_first] at hloop
        have hhandled := handled_of_loop hplain hloop
        refine ⟨handled_of_made hplain hlook (hhandled r (by simp)), ?_, ?_⟩
        · exact fun hnot => absurd hres.dynamic hnot
        · exact fun u hu => hhandled u (List.mem_append_left _ hu)

/-- **A second dynamic pair is missed**: when the first pair is dynamic the second is in the
result as it was. -/
theorem mem_of_run (hplain : m.Plain) (hdyn : a.Dynamic)
    (hloop : Restart.loop m.look avpSet n 0 (a :: b :: rest) [] = some out) : b ∈ out.1 := by
  have hlooked := looked_of_run hplain hloop
  obtain ⟨res, hres, hlook⟩ := look_of_dynamic hdyn hlooked.1.1
  cases n with
  | zero => simp [Restart.loop] at hloop
  | succ n =>
    rw [Restart.loop_take rfl hlook, avpSet_first] at hloop
    obtain ⟨k, hk⟩ := @loop_behind m b _ [a] hplain (handled_of_loop hplain hloop)
    rw [Restart.loop_unique hloop hk]
    exact List.mem_cons_self ..

/-- Every dynamic pair is looked at when the first two are not both dynamic. -/
theorem evaluates_of_looked (hlooked : m.Looked avp) (hfront : FrontFree avp) :
    ∀ u ∈ avp, u.Dynamic → m.Evaluates u := by
  intro u hu hdyn
  match avp, hlooked, hfront, hu with
  | [a], hlooked, _, hu => rwa [List.mem_singleton.mp hu]
  | a :: b :: rest, hlooked, hfront, hu =>
    rcases List.mem_cons.mp hu with rfl | hu
    · exact hlooked.1.1
    · rcases List.mem_cons.mp hu with rfl | hu
      · exact (hlooked.2.1 fun hdyn' => hfront _ _ _ rfl hdyn' hdyn).1
      · exact (hlooked.2.2 u hu).1

/-- The loop ends, with every pair replaced by what came back for it. -/
theorem run_of_looked (hplain : m.Plain) (hlooked : m.Looked avp) (hfront : FrontFree avp) :
    ∃ n out, Restart.loop m.look avpSet n 0 avp [] = some out ∧
      out.1.Perm (avp.map fun u => (m.look u).after u) ∧ out.2 = Restart.taken m.look avp := by
  match avp, hlooked, hfront with
  | [], _, _ => exact ⟨1, ([], []), rfl, .refl _, rfl⟩
  | [a], hlooked, _ =>
    by_cases hdyn : a.Dynamic
    · obtain ⟨res, _, hlook⟩ := look_of_dynamic hdyn hlooked
      refine ⟨2, ([made a res], [a]), ?_, ?_, ?_⟩
      · rw [Restart.loop_take rfl hlook]
        rfl
      · rw [List.map_singleton, hlook, Restart.Look.after]
      · rw [Restart.taken_cons_take hlook]
        rfl
    · have hlook := look_of_not_dynamic hdyn hlooked
      refine ⟨2, ([a], []), ?_, ?_, ?_⟩
      · rw [Restart.loop_leave rfl hlook]
        rfl
      · rw [List.map_singleton, hlook, Restart.Look.after]
      · rw [Restart.taken_cons_leave hlook]
        rfl
  | a :: b :: rest, hlooked, hfront =>
    by_cases hdyn : a.Dynamic
    · -- the second pair comes to the front and stays there
      obtain ⟨res, hres, hlook⟩ := look_of_dynamic hdyn hlooked.1.1
      have hleave := (look_made hplain hres).mpr (hlooked.1.2 res hres)
      have hmade : m.Handled (made a res) := (handled_iff hplain).mpr
        ⟨by simp [hleave], by simp [hleave]⟩
      have hrest : ∀ u ∈ rest ++ [made a res], m.Handled u := by
        intro u hu
        rcases List.mem_append.mp hu with hu | hu
        · exact hlooked.2.2 u hu
        · rwa [List.mem_singleton.mp hu]
      obtain ⟨n, hn⟩ := @loop_behind m b _ [a] hplain hrest
      have hb : (m.look b).after b = b ∧ (m.look b).takes = false := by
        cases hlookb : m.look b with
        | stop => exact ⟨rfl, rfl⟩
        | leave => exact ⟨rfl, rfl⟩
        | take r =>
          obtain ⟨_, _, hresb, _⟩ := look_eq_take_iff.mp hlookb
          exact absurd hresb.dynamic (hfront a b rest rfl hdyn)
      refine ⟨n + 1, _, by rw [Restart.loop_take rfl hlook, avpSet_first]; exact hn, ?_, ?_⟩
      · have hperm := Restart.left_append_cameBack_perm
          fun u hu => look_ne_stop_iff.mpr (hrest u hu).1
        refine (hperm.cons b).trans ?_
        rw [List.map_append, List.map_singleton, hleave, List.map_cons, List.map_cons, hlook, hb.1]
        exact List.perm_append_singleton _ _ |>.cons b |>.trans (List.Perm.swap ..)
      · rw [Restart.taken_append, Restart.taken_cons_leave hleave, Restart.taken_cons_take hlook]
        simp [Restart.taken, hb.2]
    · have hlook := look_of_not_dynamic hdyn hlooked.1.1
      have hrest : ∀ u ∈ b :: rest, m.Handled u := by
        intro u hu
        rcases List.mem_cons.mp hu with rfl | hu
        · exact hlooked.2.1 hdyn
        · exact hlooked.2.2 u hu
      obtain ⟨n, hn⟩ := @loop_behind m a _ [] hplain hrest
      refine ⟨n + 1, _, by rw [Restart.loop_leave rfl hlook]; exact hn, ?_, ?_⟩
      · have hperm := Restart.left_append_cameBack_perm
          fun u hu => look_ne_stop_iff.mpr (hrest u hu).1
        rw [List.map_cons, hlook]
        exact hperm.cons a
      · rw [Restart.taken_cons_leave hlook]
        rfl

end AModify

/-! ## When the record is evaluated as it should -/

namespace AModify

variable {m : AModify} {a b : UserAvp} {avp l : List UserAvp}

theorem after_of_not_dynamic (hdyn : ¬ a.Dynamic) : (m.look a).after a = a := by
  cases hlook : m.look a with
  | stop => rfl
  | leave => rfl
  | take r =>
    obtain ⟨_, _, hres, _⟩ := look_eq_take_iff.mp hlook
    exact absurd hres.dynamic hdyn

theorem becomes_after (hev : a.Dynamic → m.Evaluates a) (hname : a.Dynamic → a.attr.length < 200) :
    m.Becomes a ((m.look a).after a) := by
  refine ⟨fun hdyn => ?_, after_of_not_dynamic⟩
  obtain ⟨res, hres, hlook⟩ := look_of_dynamic hdyn (hev hdyn)
  refine ⟨res, hres, ?_⟩
  rw [hlook, Restart.Look.after, made, UserAvp.readName, if_pos (hname hdyn)]

/-- The pair that is made is shorter than it should be when its name has been lost. -/
theorem length_after_le (hev : a.Dynamic → m.Evaluates a) (hb : m.Becomes a b) :
    ((m.look a).after a).avp.length ≤ b.avp.length ∧
      (((m.look a).after a).avp.length = b.avp.length → a.Dynamic → a.attr.length < 200) := by
  by_cases hdyn : a.Dynamic
  · obtain ⟨res, hres, hlook⟩ := look_of_dynamic hdyn (hev hdyn)
    obtain ⟨res', hres', rfl⟩ := hb.dynamic hdyn
    rw [hlook, hres.unique hres', Restart.Look.after, made, UserAvp.readName]
    split
    · next h => exact ⟨Nat.le_refl _, fun _ _ => h⟩
    · next h =>
      simp only [List.length_append, List.length_nil]
      exact ⟨by omega, fun hlen => by omega⟩
  · rw [after_of_not_dynamic hdyn, hb.other hdyn]
    exact ⟨Nat.le_refl _, fun _ h => absurd h hdyn⟩

/-- All names have been kept when the pairs have the length they should have in sum. -/
theorem names_of_sum (hev : ∀ u ∈ avp, u.Dynamic → m.Evaluates u)
    (hb : List.Forall₂ m.Becomes avp l) :
    (avp.map fun u => ((m.look u).after u).avp.length).sum ≤ (l.map fun b => b.avp.length).sum ∧
      ((avp.map fun u => ((m.look u).after u).avp.length).sum =
          (l.map fun b => b.avp.length).sum →
        ∀ u ∈ avp, u.Dynamic → u.attr.length < 200) := by
  induction hb with
  | nil => simp
  | @cons a b avp l hab hb ih =>
    have ha := length_after_le (hev a (List.mem_cons_self ..)) hab
    have ih := ih fun u hu => hev u (List.mem_cons_of_mem a hu)
    simp only [List.map_cons, List.sum_cons]
    refine ⟨Nat.add_le_add ha.1 ih.1, fun hsum u hu hdyn => ?_⟩
    rcases List.mem_cons.mp hu with rfl | hu
    · exact ha.2 (by have := ih.1; omega) hdyn
    · exact ih.2 (by have := ha.1; omega) u hu hdyn

/-- The pairs that the loop takes are the dynamic ones. -/
theorem taken_eq_filter (hev : ∀ u ∈ avp, u.Dynamic → m.Evaluates u) :
    Restart.taken m.look avp = avp.filter fun a => decide a.Dynamic := by
  rw [Restart.taken]
  refine List.filter_congr fun u hu => ?_
  by_cases hdyn : u.Dynamic
  · obtain ⟨_, _, hlook⟩ := look_of_dynamic hdyn (hev u hu hdyn)
    rw [hlook, decide_eq_true hdyn]
    rfl
  · rw [decide_eq_false hdyn]
    cases hlook : m.look u with
    | stop => rfl
    | leave => rfl
    | take r =>
      obtain ⟨_, _, hres, _⟩ := look_eq_take_iff.mp hlook
      exact absurd hres.dynamic hdyn

/-- A regular record is evaluated as it should. -/
theorem evaluated_of_regular (hplain : m.Plain) {ax : DbUser} (hreg : m.Regular ax.avp) :
    ∃ rounds d calls, m.modifyer rounds ax = some (d, calls) ∧ m.Evaluated ax d calls := by
  have hev := evaluates_of_looked hreg.looked hreg.front
  obtain ⟨n, out, hrun, hperm, hcalls⟩ := run_of_looked hplain hreg.looked hreg.front
  refine ⟨n, { ax with avp := out.1 }, out.2, by rw [modifyer, hrun]; rfl, rfl, ?_, ?_, ?_⟩
  · rw [hcalls, taken_eq_filter hev]
  · refine ⟨_, ?_, hperm⟩
    rw [List.forall₂_map_right_iff, List.forall₂_same]
    exact fun u hu => becomes_after (hev u hu) (hreg.name u hu)
  · intro b hb
    obtain ⟨u, hu, rfl⟩ := List.mem_map.mp (hperm.mem_iff.mp hb)
    by_cases hdyn : u.Dynamic
    · obtain ⟨res, hres, hlook⟩ := look_of_dynamic hdyn (hev u hu hdyn)
      rw [hlook]
      exact not_dynamic_made hplain hres
    · rwa [after_of_not_dynamic hdyn]

/-- A record that is evaluated as it should is regular. -/
theorem regular_of_evaluated (hplain : m.Plain) {ax d : DbUser} {rounds : ℕ}
    {calls : List UserAvp} (hrun : m.modifyer rounds ax = some (d, calls))
    (hd : m.Evaluated ax d calls) : m.Regular ax.avp := by
  obtain ⟨out, hloop, hout⟩ := Option.map_eq_some_iff.mp hrun
  obtain ⟨rfl, rfl⟩ := Prod.mk.inj hout
  have hlooked := looked_of_run hplain hloop
  have hfront : FrontFree ax.avp := by
    intro a b rest havp hdyn
    rw [havp] at hloop
    exact hd.noneLeft b (mem_of_run hplain hdyn hloop)
  have hev := evaluates_of_looked hlooked hfront
  obtain ⟨n, out', hloop', hperm, _⟩ := run_of_looked hplain hlooked hfront
  obtain rfl := Restart.loop_unique hloop hloop'
  obtain ⟨l, hl, hperml⟩ := hd.avp
  refine ⟨hlooked, hfront, (names_of_sum hev hl).2 ?_⟩
  have hsum := ((hperm.symm.trans hperml).map fun b : UserAvp => b.avp.length).sum_nat
  rwa [List.map_map] at hsum

/-- **When the dynamic pairs of a record are evaluated**: exactly for the regular records,
whatever the modifyers are, as long as none of their results is dynamic itself. -/
theorem modifyer_evaluates_iff (m : AModify) (hplain : m.Plain) (ax : DbUser) :
    (∃ rounds d calls, m.modifyer rounds ax = some (d, calls) ∧ m.Evaluated ax d calls) ↔
      m.Regular ax.avp := by
  constructor
  · rintro ⟨rounds, d, calls, hrun, hd⟩
    exact regular_of_evaluated hplain hrun hd
  · exact evaluated_of_regular hplain

/-- A server whose pools have one address and whose other modifyers say `yes`. -/
def sample : AModify where
  name := str "rv"
  nas := str "192.168.0.1"
  port := str "As1"
  phone := []
  maindir := str "/tacppd"
  evaluate
    | .int, _ => str "10.0.0.1"
    | _, _ => str "yes"
  stack := List.replicate 300 0
  stack_length := length_zeros

theorem sample_plain : sample.Plain := by
  intro am command am'
  have hconst : sample.evaluate am command = sample.evaluate am [] := by cases am <;> rfl
  rw [hconst]
  cases am <;> cases am' <;> decide

/-- A pair of a service over IP. -/
def ipAvp (s : String) : UserAvp := ⟨str "ppp", str "ip", str s⟩

/-- One pair that stays, and one with an address from a pool. -/
def oneDynamic : DbUser := openUser [ipAvp "timeout=10", ipAvp "addr=INT:addrpool=1"] [] []

/-- An address from a pool and the answer of a program, for the user of the port. -/
def twoDynamic : DbUser :=
  openUser [ipAvp "addr=INT:addrpool=1", ipAvp "acl=EXT:acl.sh $name"] [] []

theorem oneDynamic_regular : sample.Regular oneDynamic.avp := by
  have hreadable : ∀ u ∈ oneDynamic.avp, u.Readable := by
    intro u hu
    simp only [oneDynamic, openUser, List.mem_cons, List.not_mem_nil, or_false] at hu
    rcases hu with rfl | rfl <;> exact ⟨by decide, by decide⟩
  have hfirst : ¬ (ipAvp "timeout=10").Dynamic := by decide
  have hsecond : sample.Result (ipAvp "addr=INT:addrpool=1") (str "10.0.0.1") :=
    ⟨.int, by decide, by decide +kernel⟩
  refine ⟨⟨⟨⟨hreadable _ (by decide), fun h => absurd h hfirst⟩, ?_⟩, fun _ => ?_, by simp⟩,
    ?_, by decide⟩
  · exact fun _ hres => absurd hres.dynamic hfirst
  · refine ⟨⟨hreadable _ (by decide), fun _ => ⟨_, hsecond⟩⟩, fun res hres => ?_⟩
    rw [hres.unique hsecond]
    decide
  · intro a b rest havp
    obtain ⟨rfl, _⟩ := List.cons.inj havp
    exact fun h => absurd h hfirst

/-- A record with one dynamic pair is evaluated. -/
theorem modifyer_evaluates_one : ∃ rounds d calls,
    sample.modifyer rounds oneDynamic = some (d, calls) ∧ sample.Evaluated oneDynamic d calls :=
  (modifyer_evaluates_iff sample sample_plain oneDynamic).mpr oneDynamic_regular

/-- **Two dynamic pairs**: the first is evaluated, and the second is handed out as it is. -/
theorem modifyer_misses_second : sample.Plain ∧ ¬ ∃ rounds d calls,
    sample.modifyer rounds twoDynamic = some (d, calls) ∧
      sample.Evaluated twoDynamic d calls := by
  refine ⟨sample_plain, ?_⟩
  rintro ⟨rounds, d, calls, hrun, hd⟩
  have hreg := regular_of_evaluated sample_plain hrun hd
  exact hreg.front _ _ _ rfl (by decide) (by decide)

/-- What the code hands out there. -/
example : (sample.modifyer 3 twoDynamic).map (fun d => d.1.avp) =
    some [ipAvp "acl=EXT:acl.sh $name", ipAvp "addr=10.0.0.1"] := by decide +kernel

end AModify

end Tacppd
