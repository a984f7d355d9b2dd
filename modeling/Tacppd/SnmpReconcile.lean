/-
# Reconciliation with an SNMP answer

After the answer of a polled device has been handled, the users tracked on it should all be
in the answer; who has been taken out should not be, and should be announced once.

The second loop is one that starts again behind the front (`Tacppd.Lib.Restart`), so of two
users in front who are both gone the second one stays.  It deletes whoever is first on the
port of the user it has found, and the first loop puts a user in the place of whoever is
first on his port, which nobody announces.  `reconciled_iff` says for which states and
answers all goes well.
-/
import Tacppd.SnmpPoll

namespace Tacppd

/-! ## The second loop -/

/-- What the second loop makes of an entry. -/
def snmpLook (sd : List SnmpOut) (dutmp : DeviceUserData) : Restart.Look DeviceUserData :=
  if snmpPresent sd dutmp then .leave else .take dutmp

/-- What it does to the list. -/
def snmpAct (l : List DeviceUserData) (_ : ℕ) (dutmp : DeviceUserData) : List DeviceUserData :=
  (usrDel dutmp.port l).cusr

section Loop

variable {sd : List SnmpOut} {n i : ℕ} {l l' log log' : List DeviceUserData}
  {a b e : DeviceUserData}

theorem snmpLook_of_mem (h : e.key ∈ snmpPairs sd) : snmpLook sd e = .leave :=
  if_pos (snmpPresent_iff.mpr h)

theorem snmpLook_of_not_mem (h : e.key ∉ snmpPairs sd) : snmpLook sd e = .take e :=
  if_neg fun h' => h (snmpPresent_iff.mp h')

theorem snmpLook_cases (sd : List SnmpOut) (e : DeviceUserData) :
    (snmpLook sd e = .leave ∧ e.key ∈ snmpPairs sd) ∨
      (snmpLook sd e = .take e ∧ e.key ∉ snmpPairs sd) := by
  by_cases h : e.key ∈ snmpPairs sd
  · exact .inl ⟨snmpLook_of_mem h, h⟩
  · exact .inr ⟨snmpLook_of_not_mem h, h⟩

theorem snmpAct_sublist (l : List DeviceUserData) (i : ℕ) (e : DeviceUserData) :
    (snmpAct l i e).Sublist l := by
  rw [snmpAct]
  rcases usrDel_cases e.port l with ⟨_, hdel⟩ | ⟨l₁, x, l₂, rfl, _, _, hdel⟩
  · rw [hdel]
  · rw [hdel]
    exact (List.Sublist.refl l₁).append (List.sublist_cons_self x l₂)

/-- **The loop over the devices is the loop over the list.** -/
theorem UserTrack.snmpDelLoop_eq {nasip : Bytes} {s : UserTrack}
    (hnas : ∀ e ∈ s.cusr nasip, e.nasaddr = nasip) :
    (UserTrack.snmpDelLoop nasip sd n i s).map (fun r => (r.1.cusr nasip, r.2)) =
      (Restart.loop (snmpLook sd) snmpAct n i (s.cusr nasip) []).map
        fun out => (out.1, out.2.map (delCall nasip)) := by
  induction n generalizing i s with
  | zero => rfl
  | succ n ih =>
    rw [snmpDelLoop]
    cases huser : s.device.getuser nasip i with
    | none =>
      have hget : (s.cusr nasip)[i]? = none := huser
      rw [Restart.loop_end (List.getElem?_eq_none_iff.mp hget)]
      rfl
    | some dutmp =>
      have hget : (s.cusr nasip)[i]? = some dutmp := huser
      have hmem : dutmp ∈ s.cusr nasip := List.mem_of_getElem? hget
      rcases snmpLook_cases sd dutmp with ⟨hlook, hpair⟩ | ⟨hlook, hpair⟩
      · have hpresent := snmpPresent_iff.mpr hpair
        rw [Restart.loop_leave hget hlook, ← ih hnas]
        simp only
        rw [if_neg (by simp [hpresent])]
      · have habsent : snmpPresent sd dutmp = false :=
          Bool.eq_false_iff.mpr fun h => hpair (snmpPresent_iff.mp h)
        have hcusr : (s.del dutmp.username nasip dutmp.port).2.cusr nasip =
            snmpAct (s.cusr nasip) i dutmp := by
          rw [UserTrack.del, UserTrack.usrDel, UserTrack.sweep_cusr _ nasip rfl, if_pos rfl,
            snmpAct]
        have hnas' : ∀ e ∈ (s.del dutmp.username nasip dutmp.port).2.cusr nasip,
            e.nasaddr = nasip := by
          rw [hcusr]
          exact fun e he => hnas e ((snmpAct_sublist _ i dutmp).subset he)
        have hnext := @ih 1 _ hnas'
        rw [hcusr] at hnext
        rw [Restart.loop_take hget hlook, List.nil_append, Restart.loop_log]
        simp only
        rw [if_pos ⟨(hnas dutmp hmem).symm, habsent⟩]
        have hnext := congrArg (Option.map fun out => (out.1, delCall nasip dutmp :: out.2)) hnext
        simpa [Option.map_map, Function.comp_def] using hnext

/-! ### What the loop keeps -/

/-- It deletes some entries, and takes some that were there. -/
theorem snmpLoop_sublist
    (hloop : Restart.loop (snmpLook sd) snmpAct n i l [] = some (l', log')) :
    l'.Sublist l ∧ ∀ x ∈ log', x ∈ l := by
  induction n generalizing i l log' with
  | zero => simp [Restart.loop] at hloop
  | succ n ih =>
    cases hget : l[i]? with
    | none =>
      rw [Restart.loop_end (List.getElem?_eq_none_iff.mp hget)] at hloop
      obtain ⟨rfl, rfl⟩ := Prod.mk.inj (Option.some.inj hloop)
      exact ⟨List.Sublist.refl _, by simp⟩
    | some a =>
      rcases snmpLook_cases sd a with ⟨hlook, _⟩ | ⟨hlook, _⟩
      · rw [Restart.loop_leave hget hlook] at hloop
        exact ih hloop
      · rw [Restart.loop_take hget hlook, Restart.loop_log] at hloop
        obtain ⟨out, hout, hsome⟩ := Option.map_eq_some_iff.mp hloop
        obtain ⟨rfl, rfl⟩ := Prod.mk.inj hsome
        obtain ⟨hsub, hlog⟩ := ih hout
        refine ⟨hsub.trans (snmpAct_sublist l i a), fun x hx => ?_⟩
        rcases List.mem_cons.mp hx with rfl | hx
        · exact List.mem_of_getElem? hget
        · exact (snmpAct_sublist l i a).subset (hlog x hx)

/-- An entry in front of another one, where nothing is there twice. -/
theorem mem_front {x : DeviceUserData} {l₁ l₂ : List DeviceUserData}
    (hpair : [a, x].Sublist (l₁ ++ x :: l₂)) (hx : x ∉ l₁ ++ l₂) : a ∈ l₁ := by
  obtain ⟨r₁, r₂, hr, h₁, h₂⟩ := List.sublist_append_iff.mp hpair
  match r₁, hr, h₁ with
  | [], hr, _ =>
    have hr : r₂ = [a, x] := hr.symm
    subst hr
    have htail : [x].Sublist l₂ := List.Sublist.of_cons_cons h₂
    exact absurd (List.mem_append_right _ (List.singleton_sublist.mp htail)) hx
  | [y], hr, h₁ =>
    obtain ⟨rfl, _⟩ := List.cons.inj hr
    exact List.singleton_sublist.mp h₁
  | y :: z :: r, hr, h₁ =>
    obtain ⟨rfl, hr⟩ := List.cons.inj hr
    exact h₁.subset (List.mem_cons_self ..)

/-- `usr_del` does not get at an entry behind another one on its port that stays. -/
theorem snmpAct_pair (hnodup : l.Nodup) (hpair : [a, b].Sublist l) (hport : a.port = b.port)
    (ha : a ∈ snmpAct l i e) : [a, b].Sublist (snmpAct l i e) := by
  rw [snmpAct] at ha ⊢
  rcases usrDel_cases e.port l with ⟨_, hdel⟩ | ⟨l₁, x, l₂, rfl, hnot, hx, hdel⟩
  · rwa [hdel]
  · rw [hdel] at ha ⊢
    simp only at ha ⊢
    have hxnot : x ∉ l₁ ++ l₂ := (List.nodup_cons.mp (List.nodup_middle.mp hnodup)).1
    have hax : a ≠ x := fun h => hxnot (h ▸ ha)
    -- the first one would be in front of it
    have hbx : b ≠ x := by
      rintro rfl
      exact hnot a (mem_front hpair hxnot) (hport.trans hx)
    have hfilter := hpair.filter fun y => decide (y ≠ x)
    have hkept : [a, b].filter (fun y => decide (y ≠ x)) = [a, b] := by simp [hax, hbx]
    have hgone : (l₁ ++ x :: l₂).filter (fun y => decide (y ≠ x)) =
        l₁.filter (fun y => decide (y ≠ x)) ++ l₂.filter fun y => decide (y ≠ x) := by simp
    rw [hkept, hgone] at hfilter
    exact hfilter.trans (List.filter_sublist.append List.filter_sublist)

/-- So such an entry stays to the end. -/
theorem snmpLoop_pair (hnodup : l.Nodup) (hpair : [a, b].Sublist l) (hport : a.port = b.port)
    (hloop : Restart.loop (snmpLook sd) snmpAct n i l [] = some (l', log')) (ha : a ∈ l') :
    b ∈ l' := by
  induction n generalizing i l log' with
  | zero => simp [Restart.loop] at hloop
  | succ n ih =>
    cases hget : l[i]? with
    | none =>
      rw [Restart.loop_end (List.getElem?_eq_none_iff.mp hget)] at hloop
      obtain ⟨rfl, rfl⟩ := Prod.mk.inj (Option.some.inj hloop)
      exact hpair.subset (by simp)
    | some x =>
      rcases snmpLook_cases sd x with ⟨hlook, _⟩ | ⟨hlook, _⟩
      · rw [Restart.loop_leave hget hlook] at hloop
        exact ih hnodup hpair hloop
      · rw [Restart.loop_take hget hlook, Restart.loop_log] at hloop
        obtain ⟨out, hout, hsome⟩ := Option.map_eq_some_iff.mp hloop
        obtain ⟨rfl, rfl⟩ := Prod.mk.inj hsome
        have ha' : a ∈ snmpAct l i x := (snmpLoop_sublist hout).1.subset ha
        exact ih (hnodup.sublist (snmpAct_sublist l i x)) (snmpAct_pair hnodup hpair hport ha') hout

/-- From the second entry on the loop never takes the one in front. -/
theorem snmpLoop_front (hnodup : l.Nodup) (hfront : b ∉ l ∨ ∃ rest, l = b :: rest)
    (hloop : Restart.loop (snmpLook sd) snmpAct n (i + 1) l [] = some (l', log')) : b ∉ log' := by
  induction n generalizing i l log' with
  | zero => simp [Restart.loop] at hloop
  | succ n ih =>
    cases hget : l[i + 1]? with
    | none =>
      rw [Restart.loop_end (List.getElem?_eq_none_iff.mp hget)] at hloop
      obtain ⟨rfl, rfl⟩ := Prod.mk.inj (Option.some.inj hloop)
      exact List.not_mem_nil
    | some x =>
      rcases snmpLook_cases sd x with ⟨hlook, _⟩ | ⟨hlook, _⟩
      · rw [Restart.loop_leave hget hlook] at hloop
        exact ih hnodup hfront hloop
      · rw [Restart.loop_take hget hlook, Restart.loop_log] at hloop
        obtain ⟨out, hout, hsome⟩ := Option.map_eq_some_iff.mp hloop
        obtain ⟨rfl, rfl⟩ := Prod.mk.inj hsome
        have hbx : b ≠ x := by
          rintro rfl
          rcases hfront with hb | ⟨rest, rfl⟩
          · exact hb (List.mem_of_getElem? hget)
          · rw [List.getElem?_cons_succ] at hget
            exact (List.nodup_cons.mp hnodup).1 (List.mem_of_getElem? hget)
        have hfront' : b ∉ snmpAct l (i + 1) x ∨ ∃ rest, snmpAct l (i + 1) x = b :: rest := by
          rcases hfront with hb | ⟨rest, rfl⟩
          · exact .inl fun h => hb ((snmpAct_sublist _ _ x).subset h)
          · rw [snmpAct]
            rcases usrDel_cases x.port (b :: rest) with ⟨_, hdel⟩ | ⟨l₁, y, l₂, hl, _, _, hdel⟩
            · exact .inr ⟨rest, by rw [hdel]⟩
            · rw [hdel]
              cases l₁ with
              | nil =>
                obtain ⟨rfl, rfl⟩ := List.cons.inj hl
                exact .inl (List.nodup_cons.mp hnodup).1
              | cons z l₁ =>
                obtain ⟨rfl, rfl⟩ := List.cons.inj hl
                exact .inr ⟨l₁ ++ l₂, rfl⟩
        have hrest := @ih 0 _ _ (hnodup.sublist (snmpAct_sublist l (i + 1) x)) hfront' hout
        rintro hb
        rcases List.mem_cons.mp hb with rfl | hb
        · exact hbx rfl
        · exact hrest hb

/-- When who is in the answer stays and nobody else does, everybody behind such a user on his
port is in the answer too. -/
theorem mem_of_behind {k k' : Bytes × Bytes} (hnodup : (keys l).Nodup)
    (hloop : Restart.loop (snmpLook sd) snmpAct n i l [] = some (l', log'))
    (hstays : ∀ e ∈ l, e.key ∈ snmpPairs sd → e ∈ l') (htracked : ∀ e ∈ l', e.key ∈ snmpPairs sd)
    (hpair : [k, k'].Sublist (keys l)) (hk : k ∈ snmpPairs sd) (hport : k.2 = k'.2) :
    k' ∈ snmpPairs sd := by
  obtain ⟨r, hr, hmap⟩ := List.sublist_map_iff.mp hpair
  obtain ⟨a, r, rfl, ha, hmap⟩ := List.map_eq_cons_iff.mp hmap.symm
  obtain ⟨b, r, rfl, hb, hmap⟩ := List.map_eq_cons_iff.mp hmap
  obtain rfl := List.map_eq_nil_iff.mp hmap
  have hfirst := hstays a (hr.subset (by simp)) (ha.symm ▸ hk)
  have hports : a.port = b.port := by
    rw [← ha, ← hb] at hport
    exact hport
  exact hb ▸ htracked b (snmpLoop_pair (List.Nodup.of_map _ hnodup) hr hports hloop hfirst)

/-- **A second user who is gone is missed**: the loop takes the first one, and the second one
comes to the front. -/
theorem not_mem_log_of_front (hnodup : (a :: b :: l).Nodup) (ha : a.key ∉ snmpPairs sd)
    (hloop : Restart.loop (snmpLook sd) snmpAct n 0 (a :: b :: l) [] = some (l', log')) :
    b ∉ log' := by
  obtain ⟨hab, hnodup⟩ := List.nodup_cons.mp hnodup
  cases n with
  | zero => simp [Restart.loop] at hloop
  | succ n =>
    have hact : snmpAct (a :: b :: l) 0 a = b :: l := by rw [snmpAct, usrDel, if_pos rfl]
    rw [Restart.loop_take rfl (snmpLook_of_not_mem ha), hact, Restart.loop_log] at hloop
    obtain ⟨out, hout, hsome⟩ := Option.map_eq_some_iff.mp hloop
    obtain ⟨rfl, rfl⟩ := Prod.mk.inj hsome
    have hrest := @snmpLoop_front sd n 0 _ _ _ b hnodup (.inr ⟨l, rfl⟩) hout
    intro hb
    rcases List.mem_cons.mp hb with rfl | hb
    · exact hab (List.mem_cons_self ..)
    · exact hrest hb

/-! ### When the loop settles -/

/-- Nobody of the answer is in front of somebody else on his port. -/
def Clear (sd : List SnmpOut) (l : List DeviceUserData) : Prop :=
  l.Pairwise fun x u => x.key ∈ snmpPairs sd → u.key ∉ snmpPairs sd → x.port ≠ u.port

/-- Not both entries in front are gone. -/
def FrontStays (sd : List SnmpOut) (ks : List (Bytes × Bytes)) : Prop :=
  ∀ k k' rest, ks = k :: k' :: rest → k ∈ snmpPairs sd ∨ k' ∈ snmpPairs sd

/-- Users of the answer at the end do not matter. -/
theorem frontStays_append {ks new : List (Bytes × Bytes)} (h : FrontStays sd ks)
    (hnew : new ⊆ snmpPairs sd) : FrontStays sd (ks ++ new) := by
  intro k k' rest hks
  match ks with
  | [] =>
    rw [List.nil_append] at hks
    exact .inl (hnew (by simp [hks]))
  | [a] =>
    rw [List.singleton_append] at hks
    exact .inr (hnew (by simp [(List.cons.inj hks).2]))
  | a :: b :: ks =>
    rw [List.cons_append, List.cons_append] at hks
    obtain ⟨hk, hks⟩ := List.cons.inj hks
    rw [← hk, ← (List.cons.inj hks).1]
    exact h a b ks rfl

theorem left_snmpLook (sd : List SnmpOut) (l : List DeviceUserData) :
    Restart.left (snmpLook sd) l = l.filter fun e => decide (e.key ∈ snmpPairs sd) := by
  rw [Restart.left]
  refine List.filter_congr fun e _ => ?_
  rcases snmpLook_cases sd e with ⟨hlook, h⟩ | ⟨hlook, h⟩ <;> simp [hlook, h, Restart.Look.leaves]

theorem taken_snmpLook (sd : List SnmpOut) (l : List DeviceUserData) :
    Restart.taken (snmpLook sd) l = l.filter fun e => decide (e.key ∉ snmpPairs sd) := by
  rw [Restart.taken]
  refine List.filter_congr fun e _ => ?_
  rcases snmpLook_cases sd e with ⟨hlook, h⟩ | ⟨hlook, h⟩ <;> simp [hlook, h, Restart.Look.takes]

theorem usrDel_append {p : Bytes} (hnot : NotOn p l) (he : e.port = p) :
    usrDel p (l ++ e :: l') = ⟨true, l ++ l', [e]⟩ := by
  induction l with
  | nil => exact if_pos he
  | cons x l ih =>
    obtain ⟨hx, hnot⟩ := notOn_cons.mp hnot
    rw [List.cons_append, usrDel, if_neg hx, ih hnot]
    rfl

theorem takesOut_snmpAct :
    Restart.TakesOut (snmpLook sd) snmpAct (fun _ => []) fun x r => x.port ≠ r.port := by
  intro h pre a post r hlook hfree
  obtain rfl : a = r := by
    rcases snmpLook_cases sd a with ⟨hlook', _⟩ | ⟨hlook', _⟩
    · rw [hlook] at hlook'
      contradiction
    · rw [hlook] at hlook'
      exact (Restart.Look.take.inj hlook').symm
  rw [snmpAct, ← List.cons_append, usrDel_append hfree rfl]
  simp

/-- From an entry on that stays. -/
theorem snmpLoop_behind (ha : a.key ∈ snmpPairs sd) (hclear : Clear sd (a :: l)) :
    ∃ n, Restart.loop (snmpLook sd) snmpAct n 1 (a :: l) log =
      some ((a :: l).filter (fun e => decide (e.key ∈ snmpPairs sd)),
        log ++ (a :: l).filter fun e => decide (e.key ∉ snmpPairs sd)) := by
  have hlook : ∀ u r, snmpLook sd u = .take r → r = u ∧ u.key ∉ snmpPairs sd := by
    intro u r hr
    rcases snmpLook_cases sd u with ⟨hlook', _⟩ | ⟨hlook', hu⟩
    · rw [hr] at hlook'
      contradiction
    · rw [hr] at hlook'
      exact ⟨Restart.Look.take.inj hlook', hu⟩
  obtain ⟨hfront, hpair⟩ := List.pairwise_cons.mp hclear
  obtain ⟨n, hn⟩ := @Restart.loop_settles _ (snmpLook sd) snmpAct log (fun _ => [])
    (fun x r => x.port ≠ r.port) takesOut_snmpAct a [] l (by simp)
    (fun u _ hstop => by
      rcases snmpLook_cases sd u with ⟨h, _⟩ | ⟨h, _⟩ <;> rw [h] at hstop <;> contradiction)
    (fun _ _ _ _ x hx => absurd hx List.not_mem_nil)
    (fun u hu r hr x hx => by
      obtain ⟨rfl, hgone⟩ := hlook u r hr
      rw [List.mem_singleton.mp hx]
      exact hfront r hu ha hgone)
    (hpair.imp fun {x u} hxu r hx hr => by
      obtain ⟨rfl, hgone⟩ := hlook u r hr
      rcases snmpLook_cases sd x with ⟨_, hxmem⟩ | ⟨hx', _⟩
      · exact hxu hxmem hgone
      · rw [hx] at hx'
        contradiction)
  refine ⟨n, hn.trans ?_⟩
  have hback : Restart.cameBack (snmpLook sd) (fun _ => []) l = [] := by
    rw [Restart.cameBack, List.flatMap_eq_nil_iff]
    intro x _
    rcases snmpLook_cases sd x with ⟨h, _⟩ | ⟨h, _⟩ <;> rw [h] <;> rfl
  rw [left_snmpLook, taken_snmpLook, hback, List.filter_cons_of_pos (by simpa using ha),
    List.filter_cons_of_neg (by simpa using ha)]
  simp

/-- **When the second loop settles**: it leaves who is in the answer, and takes all others. -/
theorem snmpLoop_settles (hclear : Clear sd l) (hfront : FrontStays sd (keys l)) :
    ∃ n, Restart.loop (snmpLook sd) snmpAct n 0 l [] =
      some (l.filter (fun e => decide (e.key ∈ snmpPairs sd)),
        l.filter fun e => decide (e.key ∉ snmpPairs sd)) := by
  match l, hclear, hfront with
  | [], _, _ => exact ⟨1, rfl⟩
  | a :: l, hclear, hfront =>
    rcases snmpLook_cases sd a with ⟨hlook, ha⟩ | ⟨hlook, ha⟩
    · obtain ⟨n, hn⟩ := @snmpLoop_behind sd l [] a ha hclear
      exact ⟨n + 1, by rw [Restart.loop_leave rfl hlook]; exact hn⟩
    · have hact : snmpAct (a :: l) 0 a = l := by
        rw [snmpAct, usrDel, if_pos rfl]
      rw [List.filter_cons_of_neg (by simpa using ha), List.filter_cons_of_pos (by simpa using ha)]
      cases l with
      | nil =>
        refine ⟨2, ?_⟩
        rw [Restart.loop_take rfl hlook, hact]
        rfl
      | cons b l =>
        -- the second entry comes to the front, and it stays
        have hb : b.key ∈ snmpPairs sd := (hfront a.key b.key (keys l) rfl).resolve_left ha
        obtain ⟨n, hn⟩ := @snmpLoop_behind sd l [a] b hb (List.pairwise_cons.mp hclear).2
        exact ⟨n + 1, by rw [Restart.loop_take rfl hlook, hact]; exact hn⟩

end Loop

/-! ## The whole step -/

namespace UserTrack

/-- Who is taken out while an answer is handled, by the calls of the first loop or by the
second one. -/
def snmpLost (w : World) (n : Bytes) (sd : List SnmpOut) (s s' : UserTrack) :
    List DeviceUserData :=
  addLost w n (snmpPairs sd) s ++
    lost (((snmpPairs sd).foldl (addPair w n) s).cusr n) (s'.cusr n)

/-- What reconciliation is for: who is tracked is in the answer, who is taken out is not, and
each removal is announced once. -/
structure Reconciled (w : World) (n : Bytes) (sd : List SnmpOut) (s s' : UserTrack)
    (calls : List UtCall) : Prop where
  tracked : ∀ e ∈ s'.cusr n, e.key ∈ snmpPairs sd
  removed : ∀ e ∈ snmpLost w n sd s s', e.key ∉ snmpPairs sd
  announced : (calls.filter fun c => !c.s).Perm ((snmpLost w n sd s s').map (delCall n))

/-- Nobody else is on a port that the answer names, it names no second user for a free port
where the first one can be put, and of the two entries in front one is in the answer. -/
structure AnswerFits (w : World) (n : Bytes) (sd : List SnmpOut) (s : UserTrack) : Prop where
  own : ∀ x ∈ snmpPairs sd, ∀ e ∈ s.cusr n, e.port = x.2 → e.username = x.1
  alone : (snmpPairs sd).Pairwise fun x y =>
    x.2 = y.2 → NotOn x.2 (s.cusr n) → s.Found w x.1 → y.1 = x.1
  front : FrontStays sd (keys (s.cusr n))

variable {w : World} {n : Bytes} {sd : List SnmpOut} {s s' : UserTrack} {calls : List UtCall}
  {rounds : ℕ} {l l' log : List DeviceUserData}

theorem kept_foldl {P : Bytes → List DeviceUserData → Prop} (hP : KeptOnDevices P)
    (xs : List (Bytes × Bytes)) (hs : ∀ m, P m (s.cusr m)) :
    ∀ m, P m ((xs.foldl (addPair w n) s).cusr m) := by
  induction xs generalizing s with
  | nil => exact hs
  | cons x xs ih => exact ih (hP.add hs x.1 n x.2 [] unknownIp)

/-- The calls with status `false` are those of the second loop. -/
theorem filter_calls {adds : List UtCall} (hadds : ∀ c ∈ adds, c.s = true) :
    ((adds ++ log.map (delCall n)).filter fun c => !c.s) = log.map (delCall n) := by
  have hfirst : (adds.filter fun c => !c.s) = [] := by
    rw [List.filter_eq_nil_iff]
    intro c hc
    simp [hadds c hc]
  have hsecond : ((log.map (delCall n)).filter fun c => !c.s) = log.map (delCall n) := by
    rw [List.filter_eq_self]
    intro c hc
    obtain ⟨e, _, rfl⟩ := List.mem_map.mp hc
    rfl
  rw [List.filter_append, hfirst, hsecond, List.nil_append]

/-- **The step by its list**: what the second loop makes of the users that the first one
leaves. -/
theorem snmpPoll_iff (hnas : ∀ m, ∀ e ∈ s.cusr m, e.nasaddr = m) (w : World) (sd : List SnmpOut)
    (rounds : ℕ) (l' : List DeviceUserData) (announced : List UtCall) :
    (∃ s' calls, snmpPoll w n sd rounds s = some (s', calls) ∧ s'.cusr n = l' ∧
      (calls.filter fun c => !c.s) = announced) ↔
    ∃ log, Restart.loop (snmpLook sd) snmpAct rounds 0
      (((snmpPairs sd).foldl (addPair w n) s).cusr n) [] = some (l', log) ∧
        announced = log.map (delCall n) := by
  obtain ⟨hstate, hadds⟩ := snmpAddLoop_spec w n sd s
  have hkept := @kept_foldl w n s _ nasaddr_kept (snmpPairs sd) hnas n
  have heq := @snmpDelLoop_eq sd rounds 0 n _ hkept
  rw [← hstate] at heq ⊢
  constructor
  · rintro ⟨s', calls, hpoll, rfl, rfl⟩
    obtain ⟨second, hsecond, hout⟩ := Option.map_eq_some_iff.mp hpoll
    obtain ⟨rfl, rfl⟩ := Prod.mk.inj hout
    rw [hsecond, Option.map_some] at heq
    obtain ⟨out, hloop, hsame⟩ := Option.map_eq_some_iff.mp heq.symm
    obtain ⟨hlist, hcalls⟩ := Prod.mk.inj hsame
    refine ⟨out.2, by rw [hloop, ← hlist], ?_⟩
    rw [← hcalls, filter_calls hadds]
  · rintro ⟨log, hloop, rfl⟩
    rw [hloop, Option.map_some] at heq
    obtain ⟨second, hsecond, hsame⟩ := Option.map_eq_some_iff.mp heq
    obtain ⟨hlist, hcalls⟩ := Prod.mk.inj hsame
    refine ⟨second.1, (snmpAddLoop w n sd s).2 ++ second.2, ?_, hlist, ?_⟩
    · rw [snmpPoll, hsecond]
      rfl
    · rw [hcalls, filter_calls hadds]

theorem key_eq_of_delCall {a b : DeviceUserData} (h : delCall n a = delCall n b) :
    a.key = b.key := by
  obtain ⟨hu, _, _, hp, _⟩ := UtCall.mk.inj h
  rw [DeviceUserData.key, DeviceUserData.key, hu, hp]

theorem eq_of_key {a b : DeviceUserData} (hnodup : (keys l).Nodup) (ha : a ∈ l) (hb : b ∈ l)
    (h : a.key = b.key) : a = b := List.inj_on_of_nodup_map hnodup ha hb h

/-- Where nobody is taken out by the first loop, an entry that is gone is one that the second
one has announced. -/
theorem mem_of_announced {e : DeviceUserData}
    (hloop : Restart.loop (snmpLook sd) snmpAct rounds 0 l [] = some (l', log))
    {gone : List DeviceUserData} (hperm : (log.map (delCall n)).Perm (gone.map (delCall n)))
    (he : e ∈ gone) : ∃ x ∈ log, x ∈ l ∧ x.key = e.key := by
  obtain ⟨x, hx, hcall⟩ := List.mem_map.mp
    (hperm.mem_iff.mpr (List.mem_map.mpr ⟨e, he, rfl⟩))
  exact ⟨x, hx, (snmpLoop_sublist hloop).2 x hx, key_eq_of_delCall hcall⟩

theorem clear_iff : Clear sd l ↔
    (keys l).Pairwise fun x u => x ∈ snmpPairs sd → u ∉ snmpPairs sd → x.2 ≠ u.2 := by
  rw [keys, List.pairwise_map]
  rfl

/-- Those who are missing in what is left. -/
theorem lost_filter :
    lost l (l.filter fun e => decide (e.key ∈ snmpPairs sd)) =
      l.filter fun e => decide (e.key ∉ snmpPairs sd) := by
  rw [lost]
  refine List.filter_congr fun e he => decide_eq_decide.mpr (not_congr ?_)
  rw [mem_keys]
  constructor
  · rintro ⟨x, hx, hkey⟩
    rw [← hkey]
    simpa using (List.mem_filter.mp hx).2
  · intro h
    exact ⟨e, List.mem_filter.mpr ⟨he, by simpa using h⟩, rfl⟩

/-- When everything goes well the answer fits. -/
theorem answerFits_of_reconciled (hnodup : ∀ m, (keys (s.cusr m)).Nodup)
    (hnas : ∀ m, ∀ e ∈ s.cusr m, e.nasaddr = m) (hknown : s.device.known n = true)
    (hpoll : snmpPoll w n sd rounds s = some (s', calls))
    (hrec : Reconciled w n sd s s' calls) : AnswerFits w n sd s := by
  obtain ⟨log, hloop, hcalls⟩ := (snmpPoll_iff hnas w sd rounds (s'.cusr n) _).mp
    ⟨s', calls, hpoll, rfl, rfl⟩
  have hperm := hrec.announced
  rw [hcalls] at hperm
  have hkept := kept_foldl (w := w) (n := n) keys_kept (snmpPairs sd) hnodup n
  have hne : ∀ x ∈ snmpPairs sd, x.1 ≠ [] := fun x hx => ne_nil_of_mem_snmpPairs hx
  -- nobody announces what the first loop takes out
  have hlost : addLost w n (snmpPairs sd) s = [] := by
    rw [List.eq_nil_iff_forall_not_mem]
    intro e he
    have hmem : e ∈ snmpLost w n sd s s' := List.mem_append_left _ he
    obtain ⟨x, _, hx, hkey⟩ := mem_of_announced hloop hperm hmem
    refine not_mem_keys_of_addLost he (hrec.removed e hmem) ?_
    rw [← hkey]
    exact mem_keys.mpr ⟨x, hx, rfl⟩
  have hfits := (addLost_eq_nil_iff hnodup hknown hne).mp hlost
  obtain ⟨new, hkeys, hnew⟩ := keys_of_ownersFit hknown hne hfits
  have hstays : ∀ e ∈ ((snmpPairs sd).foldl (addPair w n) s).cusr n, e.key ∈ snmpPairs sd →
      e ∈ s'.cusr n := by
    intro e he hpair
    by_contra hgone
    refine hrec.removed e (List.mem_append_right _ (mem_lost.mpr ⟨he, fun hmem => ?_⟩)) hpair
    obtain ⟨x, hx, hkey⟩ := mem_keys.mp hmem
    exact hgone (eq_of_key hkept ((snmpLoop_sublist hloop).1.subset hx) he hkey ▸ hx)
  refine ⟨fun x hx e he hport => ?_, ?_, ?_⟩
  · -- who is first on the port is in the answer, so everybody behind him on it is
    have hown : ∀ x ∈ snmpPairs sd, ∀ f, firstOn x.2 (s.cusr n) = some f → f.username = x.1 := by
      intro x hx f hf
      exact hfits.1 x hx f.username (by rw [owner_keys, hf]; rfl)
    cases hfirst : firstOn x.2 (s.cusr n) with
    | none => exact absurd hport (notOn_of_firstOn hfirst e he)
    | some f =>
      have hfu := hown x hx f hfirst
      obtain ⟨l₁, l₂, hl, hnot, hfp⟩ := exists_of_firstOn hfirst
      rw [hl] at he
      rcases List.mem_append.mp he with he | he
      · exact absurd hport (hnot e he)
      · rcases List.mem_cons.mp he with rfl | he
        · exact hfu
        · have hpair : [f.key, e.key].Sublist
              (keys (((snmpPairs sd).foldl (addPair w n) s).cusr n)) := by
            rw [hkeys, hl, keys, List.map_append, List.map_cons]
            refine List.Sublist.trans ?_ (List.sublist_append_left _ _)
            refine List.Sublist.trans ?_ (List.sublist_append_right _ _)
            exact (List.singleton_sublist.mpr (List.mem_map.mpr ⟨e, he, rfl⟩)).cons_cons _
          have hf : f.key ∈ snmpPairs sd := by
            rw [DeviceUserData.key, hfu, hfp]
            exact hx
          have hmem := mem_of_behind hkept hloop hstays hrec.tracked hpair hf
            (hfp.trans hport.symm)
          have hsame := hown e.key hmem f (by rw [← hport] at hfirst; exact hfirst)
          rw [← hfu, hsame]
          rfl
  · exact hfits.2.imp fun {x y} hxy hport hnot hfound =>
      hxy hport (owner_eq_none_iff.mpr hnot) hfound
  · -- the second one comes to the front, and is not looked at any more
    intro k k' rest hks
    by_contra hgone
    obtain ⟨hk, hk'⟩ := not_or.mp hgone
    rw [hks] at hkeys
    obtain ⟨a, r, hcusr, ha, hmap⟩ := List.map_eq_cons_iff.mp hkeys
    obtain ⟨b, r, rfl, hb, -⟩ := List.map_eq_cons_iff.mp hmap
    have hbmem : b ∈ ((snmpPairs sd).foldl (addPair w n) s).cusr n := by simp [hcusr]
    by_cases hlast : b ∈ s'.cusr n
    · exact hk' (hb ▸ hrec.tracked b hlast)
    · have hlostb : b ∈ snmpLost w n sd s s' := by
        refine List.mem_append_right _ (mem_lost.mpr ⟨hbmem, fun hmem => ?_⟩)
        obtain ⟨x, hx, hkey⟩ := mem_keys.mp hmem
        exact hlast (eq_of_key hkept ((snmpLoop_sublist hloop).1.subset hx) hbmem hkey ▸ hx)
      obtain ⟨x, hxlog, hx, hkey⟩ := mem_of_announced hloop hperm hlostb
      obtain rfl := eq_of_key hkept hx hbmem hkey
      rw [hcusr] at hloop hkept
      exact not_mem_log_of_front (List.Nodup.of_map _ hkept) (ha ▸ hk) hloop hxlog

/-- When the answer fits everything goes well. -/
theorem reconciled_of_answerFits (hnodup : ∀ m, (keys (s.cusr m)).Nodup)
    (hnas : ∀ m, ∀ e ∈ s.cusr m, e.nasaddr = m) (hknown : s.device.known n = true)
    (hfit : AnswerFits w n sd s) :
    ∃ rounds s' calls, snmpPoll w n sd rounds s = some (s', calls) ∧
      Reconciled w n sd s s' calls := by
  have hkept := kept_foldl (w := w) (n := n) keys_kept (snmpPairs sd) hnodup n
  have hne : ∀ x ∈ snmpPairs sd, x.1 ≠ [] := fun x hx => ne_nil_of_mem_snmpPairs hx
  have hfits : OwnersFit (s.Found w) (keys (s.cusr n)) (snmpPairs sd) := by
    refine ⟨fun x hx v hv => ?_, ?_⟩
    · rw [owner_keys] at hv
      obtain ⟨f, hfirst, rfl⟩ := Option.map_eq_some_iff.mp hv
      obtain ⟨l₁, l₂, hl, _, hfp⟩ := exists_of_firstOn hfirst
      exact hfit.own x hx f (by simp [hl]) hfp
    · exact hfit.alone.imp fun {x y} hxy hport hnone hfound =>
        hxy hport (owner_eq_none_iff.mp hnone) hfound
  have hlost := (addLost_eq_nil_iff hnodup hknown hne).mpr hfits
  obtain ⟨new, hkeys, hnew⟩ := keys_of_ownersFit hknown hne hfits
  have hclear : Clear sd (((snmpPairs sd).foldl (addPair w n) s).cusr n) := by
    rw [clear_iff, hkeys, List.pairwise_append]
    refine ⟨List.pairwise_of_forall_mem_list ?_, List.pairwise_of_forall_mem_list ?_, ?_⟩
    · intro x _ u hu hx hgone hport
      obtain ⟨e, he, rfl⟩ := mem_keys.mp hu
      have hsame := hfit.own x hx e he hport.symm
      exact hgone (by rw [DeviceUserData.key, hsame, ← show x.2 = e.port from hport]; exact hx)
    · exact fun _ _ u hu _ hgone => absurd (hnew hu) hgone
    · exact fun _ _ u hu _ hgone => absurd (hnew hu) hgone
  have hfront : FrontStays sd (keys (((snmpPairs sd).foldl (addPair w n) s).cusr n)) := by
    rw [hkeys]
    exact frontStays_append hfit.front hnew
  obtain ⟨rounds, hloop⟩ := snmpLoop_settles hclear hfront
  obtain ⟨s', calls, hpoll, hcusr, hcalls⟩ := (snmpPoll_iff hnas w sd rounds _ _).mpr
    ⟨_, hloop, rfl⟩
  have hgone : snmpLost w n sd s s' = (((snmpPairs sd).foldl (addPair w n) s).cusr n).filter
      fun e => decide (e.key ∉ snmpPairs sd) := by
    rw [snmpLost, hlost, hcusr, lost_filter, List.nil_append]
  refine ⟨rounds, s', calls, hpoll, ?_, ?_, ?_⟩
  · intro e he
    rw [hcusr] at he
    simpa using (List.mem_filter.mp he).2
  · intro e he
    rw [hgone] at he
    simpa using (List.mem_filter.mp he).2
  · rw [hcalls, hgone]

end UserTrack

/-- **Reconciliation with an SNMP answer.**  In every state that is reached, and for every answer
of a device, the users that are tracked on the device afterwards are in the answer, those who
have been taken out are not, and each of them is announced once, exactly when the answer fits
the state. -/
theorem reconciled_iff (md5 : Bytes → Digest) {h : List ((World × TrackOp) × Bool)}
    {s : UserTrack} (hr : (tracking md5).Reaches h s) {n : Bytes}
    (hknown : s.device.known n = true) (w : World) (sd : List SnmpOut) :
    (∃ rounds s' calls, s.snmpPoll w n sd rounds = some (s', calls) ∧
      UserTrack.Reconciled w n sd s s' calls) ↔ UserTrack.AnswerFits w n sd s := by
  have hnodup := keys_kept.reaches hr
  have hnas := nasaddr_kept.reaches hr
  constructor
  · rintro ⟨rounds, s', calls, hpoll, hrec⟩
    exact UserTrack.answerFits_of_reconciled hnodup hnas hknown hpoll hrec
  · exact UserTrack.reconciled_of_answerFits hnodup hnas hknown

/-- A device is configured, and `ann` and `bob` log in on two ports of it. -/
def twoCome : List (World × TrackOp) :=
  openRun [.device (str "10.0.0.1"), .get2add (str "ann") (str "10.0.0.1") (str "As1") [],
    .get2add (str "bob") (str "10.0.0.1") (str "As2") []]

/-- The state after that. -/
def twoTracked : UserTrack :=
  (tracking fun _ => constDigest 0).final twoCome

/-- An answer with `ann` only. -/
def annAnswered : List SnmpOut := [⟨str "ann", str "Async1"⟩]

theorem keys_twoTracked : keys (twoTracked.cusr (str "10.0.0.1")) =
    [(str "ann", str "As1"), (str "bob", str "As2")] := by
  decide +kernel

/-- `bob` has gone: he is taken out and announced. -/
theorem reconciled_annAnswered : ∃ rounds s' calls,
    twoTracked.snmpPoll openWorld (str "10.0.0.1") annAnswered rounds = some (s', calls) ∧
      UserTrack.Reconciled openWorld (str "10.0.0.1") annAnswered twoTracked s' calls := by
  refine (reconciled_iff _ (Machine.reaches_history _ twoCome) (by decide +kernel) openWorld
    annAnswered).mpr ⟨by decide +kernel, List.pairwise_singleton _ _, ?_⟩
  intro k k' rest hks
  have hks := keys_twoTracked.symm.trans hks
  rw [← (List.cons.inj hks).1]
  exact .inl (by decide +kernel)

/-- **Both have gone**: `ann` is taken out, and `bob` stays. -/
theorem reconciled_misses_second :
    (tracking fun _ => constDigest 0).Reaches
        ((tracking fun _ => constDigest 0).history twoCome) twoTracked ∧
      twoTracked.device.known (str "10.0.0.1") = true ∧
      ¬ ∃ rounds s' calls,
        twoTracked.snmpPoll openWorld (str "10.0.0.1") [] rounds = some (s', calls) ∧
          UserTrack.Reconciled openWorld (str "10.0.0.1") [] twoTracked s' calls := by
  have hr := Machine.reaches_history (tracking fun _ => constDigest 0) twoCome
  refine ⟨hr, by decide +kernel, ?_⟩
  rintro ⟨rounds, s', calls, hpoll, hrec⟩
  have hfit := UserTrack.answerFits_of_reconciled (keys_kept.reaches hr) (nasaddr_kept.reaches hr)
    (by decide +kernel) hpoll hrec
  rcases hfit.front _ _ _ keys_twoTracked with h | h
  · exact List.not_mem_nil h
  · exact List.not_mem_nil h

end Tacppd
