/-
# One user on a port

Two results about the tracking system.  A device should have one entry for a port at
most: `get2add` breaks this when it adds a user who is tracked already, since on this way
it does not ask who is on the port, and it is the only operation that does.  And STOP
should end the session of its own user only: it deletes whoever is first on the port.
-/
import Mathlib.Data.List.Nodup
import Tacppd.Track

namespace Tacppd

/-! ## One device -/

/-- The ports of the entries, one by one. -/
def ports (cusr : List DeviceUserData) : List Bytes := cusr.map DeviceUserData.port

theorem notOn_iff {p : Bytes} {cusr : List DeviceUserData} : NotOn p cusr ↔ p ∉ ports cusr := by
  simp [NotOn, ports]

/-- Beside an entry nobody else is on its port, where nobody shares one. -/
theorem notOn_of_nodup {l l' : List DeviceUserData} {e : DeviceUserData} {p : Bytes}
    (h : (ports (l ++ e :: l')).Nodup) (he : e.port = p) : NotOn p (l ++ l') := by
  rw [notOn_iff]
  simp only [ports, List.map_append, List.map_cons, he] at h ⊢
  exact (List.nodup_cons.mp (List.nodup_middle.mp h)).1

/-- `usr_del` only takes a port away. -/
theorem ports_usrDel (p : Bytes) (cusr : List DeviceUserData) :
    (ports (usrDel p cusr).cusr).Sublist (ports cusr) := by
  rcases usrDel_cases p cusr with ⟨-, hdel⟩ | ⟨l, e, l', rfl, -, -, hdel⟩
  · rw [hdel]
  · rw [hdel]
    exact ((List.Sublist.refl l).append (List.sublist_cons_self e l')).map _

/-- `usr_activate` keeps the ports or takes one away. -/
theorem ports_usrActivate (now : ℤ) (u p t ua : Bytes) (cusr : List DeviceUserData) :
    (ports (usrActivate now u p t ua cusr).cusr).Sublist (ports cusr) := by
  rcases usrActivate_cases now u p t ua cusr with ⟨-, hact⟩ | ⟨l, e, l', rfl, -, he, -, hact⟩ |
    ⟨l, e, l', rfl, -, -, -, hact⟩
  · rw [hact]
  · -- the update writes the port that the entry has
    have hport : ((e.update now p t ua).setActive).port = e.port := he.symm
    rw [hact]
    simp only [ports, List.map_append, List.map_cons, hport]
    exact List.Sublist.refl _
  · rw [hact]
    exact ((List.Sublist.refl l).append (List.sublist_cons_self e l')).map _

/-- Behind `usr_del` nobody is on the port, where nobody shared it. -/
theorem notOn_usrDel {p : Bytes} {cusr : List DeviceUserData} (h : (ports cusr).Nodup) :
    NotOn p (usrDel p cusr).cusr := by
  rcases usrDel_cases p cusr with ⟨hnot, hdel⟩ | ⟨l, e, l', rfl, hnot, he, hdel⟩
  · rw [hdel]
    exact hnot
  · rw [hdel]
    exact notOn_of_nodup h he

/-- Behind `usr_activate` without success nobody is on the port, where nobody shared
it. -/
theorem notOn_usrActivate {now : ℤ} {u p t ua : Bytes} {cusr : List DeviceUserData}
    (h : (ports cusr).Nodup) (hres : (usrActivate now u p t ua cusr).res = false) :
    NotOn p (usrActivate now u p t ua cusr).cusr := by
  rcases usrActivate_cases now u p t ua cusr with ⟨hnot, hact⟩ | ⟨l, e, l', -, -, -, -, hact⟩ |
    ⟨l, e, l', rfl, hnot, he, -, hact⟩
  · rw [hact]
    exact hnot
  · rw [hact] at hres
    contradiction
  · rw [hact]
    exact notOn_of_nodup h he

/-! ## The invariant -/

namespace UserTrack

/-- On every device there is one entry for a port at most. -/
def OnePerPort (s : UserTrack) : Prop := ∀ n, (ports (s.cusr n)).Nodup

/-- The condition for a look-up of a user: when the record comes from the billing store,
nobody else is on the port. -/
def PortFree (s : UserTrack) (u nas p : Bytes) : Prop :=
  (s.billing.getUd u).data.result = true → ∀ e ∈ s.cusr nas, e.port = p → e.username = u

/-- The condition for an operation. -/
def KeepsPorts (s : UserTrack) : TrackOp → Prop
  | .authenticate call => s.PortFree call.user call.nas call.port
  | .get2add u nas p _ => s.PortFree u nas p
  | .add .. | .del .. | .expire | .down _ | .device _ | .assigned _ | .destroyed _ => True

variable {s : UserTrack} {w : World} {u n p t ua : Bytes} {now : ℤ}

/-- A loop that only takes ports away. -/
theorem OnePerPort.sweep (hs : s.OnePerPort) (n : Bytes) {f : List DeviceUserData → Swept}
    (hf : ∀ cusr, (ports (f cusr).cusr).Sublist (ports cusr)) :
    (s.sweep n f).2.OnePerPort := by
  have hnil : (f []).cusr = [] := by
    have hsub := hf []
    simpa [ports] using List.sublist_nil.mp hsub
  intro m
  rw [s.sweep_cusr n hnil]
  by_cases hm : m = n
  · rw [if_pos hm]
    exact (hs n).sublist (hf _)
  · rw [if_neg hm]
    exact hs m

theorem OnePerPort.usrDel (hs : s.OnePerPort) (n p : Bytes) : (s.usrDel n p).2.OnePerPort :=
  hs.sweep n (ports_usrDel p)

theorem OnePerPort.usrActivate (hs : s.OnePerPort) (now : ℤ) (n u p t ua : Bytes) :
    (s.usrActivate now n u p t ua).2.OnePerPort :=
  hs.sweep n (ports_usrActivate now u p t ua)

/-- **A new entry**: the ports stay different exactly when nobody else is on its port. -/
theorem OnePerPort.usrAdd_iff (hs : s.OnePerPort) (d : UserRecord) :
    (s.usrAdd now n u p t d).OnePerPort ↔ ∀ e ∈ s.cusr n, e.port = p → e.username = u := by
  cases hk : s.device.known n with
  | false =>
    have hnone : s.cusr n = [] := s.device.cusr_of_not_known n hk
    refine iff_of_true (fun m => ?_) (by simp [hnone])
    rw [s.usrAdd_cusr, if_neg (by simp [hk])]
    exact hs m
  | true =>
    cases hp : isPresent u p (s.cusr n) with
    | true =>
      -- the entry on the port is the user's, and it is the only one there
      refine iff_of_true (fun m => ?_) ?_
      · rw [s.usrAdd_cusr, if_neg (by simp [hp])]
        exact hs m
      · intro e he hep
        rw [isPresent, List.any_eq_true] at hp
        obtain ⟨x, hx, hxp⟩ := hp
        simp only [Bool.and_eq_true, decide_eq_true_eq] at hxp
        have heq := List.inj_on_of_nodup_map (hs n) he hx (hep.trans hxp.1.symm)
        rw [heq, hxp.2]
    | false =>
      have hmine : ∀ e ∈ s.cusr n, e.port = p → e.username ≠ u := by
        intro e he hep heu
        rw [isPresent, List.any_eq_false] at hp
        exact hp e he (by simp [hep, heu])
      have hcusr : ∀ m, (s.usrAdd now n u p t d).cusr m =
          if m = n then s.cusr n ++ [⟨u, p, t, false, now, n, unknownIp⟩] else s.cusr m := by
        intro m
        rw [s.usrAdd_cusr]
        by_cases hm : m = n
        · rw [if_pos ⟨hm, hk, hp⟩, if_pos hm]
        · rw [if_neg (fun h => hm h.1), if_neg hm]
      have hports : (ports (s.cusr n ++ [⟨u, p, t, false, now, n, unknownIp⟩])).Nodup ↔
          NotOn p (s.cusr n) := by
        rw [notOn_iff, ports, List.map_append, List.map_singleton, List.nodup_append]
        constructor
        · intro h hmem
          exact h.2.2 p hmem p (List.mem_singleton.mpr rfl) rfl
        · intro hnot
          refine ⟨hs n, List.nodup_singleton _, ?_⟩
          rintro a ha _ hb rfl
          have hap : a = p := List.mem_singleton.mp hb
          exact hnot (hap ▸ ha)
      constructor
      · intro hnew e he hep
        have hnodup := hnew n
        rw [hcusr, if_pos rfl, hports] at hnodup
        exact absurd hep (hnodup e he)
      · intro hfree m
        rw [hcusr]
        by_cases hm : m = n
        · rw [if_pos hm, hports]
          intro e he hep
          exact hmine e he hep (hfree e he hep)
        · rw [if_neg hm]
          exact hs m

/-- **A look-up** keeps the ports different exactly under its condition. -/
theorem OnePerPort.get2add_iff (hs : s.OnePerPort) :
    (s.get2add w u n p t).2.OnePerPort ↔ s.PortFree u n p := by
  unfold PortFree
  rcases s.get2add_cases w u n p t with ⟨hres, hget⟩ | ⟨hres, -, hget⟩ | ⟨hres, -, hget⟩
  · rw [hget, hs.usrAdd_iff, hres]
    simp
  · rw [hget, hres]
    exact iff_of_true hs (by simp)
  · -- whoever was on the port has been deleted
    rw [hget, hres]
    refine iff_of_true ?_ (by simp)
    have hs' : OnePerPort { s with dbec := (s.lookUp w u).2 } := hs
    refine ((hs'.usrDel n p).usrAdd_iff _).mpr ?_
    intro e he hep
    rw [UserTrack.usrDel, UserTrack.sweep_cusr _ _ rfl, if_pos rfl] at he
    exact absurd hep (notOn_usrDel (hs n) e he)

/-- **`add` always keeps the ports different**: it empties the port before it looks the
user up. -/
theorem OnePerPort.add (hs : s.OnePerPort) : (s.add w u n p t ua).2.OnePerPort := by
  have hfirst := hs.usrActivate w.now n u p t ua
  have hfound : (s.usrActivate w.now n u p t ua).1 = false →
      (s.addFound w u n p t ua).2.OnePerPort := by
    intro hres
    refine hfirst.get2add_iff.mpr ?_
    intro _ e he hep
    have hcusr : (s.usrActivate w.now n u p t ua).2.cusr n =
        (Tacppd.usrActivate w.now u p t ua (s.cusr n)).cusr := by
      rw [UserTrack.usrActivate, s.sweep_cusr n rfl, if_pos rfl]
    rw [hcusr] at he
    exact absurd hep (notOn_usrActivate (hs n) hres e he)
  rcases s.add_cases w u n p t ua with ⟨-, hadd⟩ | ⟨hres, -, hadd⟩ | ⟨hres, -, hadd⟩
  · rw [hadd]
    exact hfirst
  · rw [hadd]
    exact (hfound hres).usrActivate w.now n u p t ua
  · rw [hadd]
    exact hfound hres

theorem OnePerPort.expireLoop (hs : s.OnePerPort) (nas : List Device) :
    (UserTrack.expireLoop now nas s).OnePerPort := by
  induction nas generalizing s with
  | nil => exact hs
  | cons d nas ih =>
    apply ih
    apply hs.sweep d.hostaddr
    intro cusr
    exact (List.filter_sublist).map _

/-- **The exact condition.**  An operation on a state with one entry for each port leads
to such a state if and only if it meets the condition. -/
theorem OnePerPort.run_iff (md5 : Bytes → Digest) (hs : s.OnePerPort) (op : TrackOp) :
    (s.run md5 w op).2.OnePerPort ↔ s.KeepsPorts op := by
  cases op with
  | authenticate call => exact hs.get2add_iff
  | get2add u nas p t => exact hs.get2add_iff
  | add u c p t ua => exact iff_of_true hs.add trivial
  | del u c p => exact iff_of_true (hs.usrDel c p) trivial
  | expire => exact iff_of_true (hs.expireLoop s.device.nas) trivial
  | down n => exact iff_of_true (hs.sweep n fun cusr => List.nil_sublist _) trivial
  | device n =>
    refine iff_of_true (fun m => ?_) trivial
    show (ports ((s.device.add n).cusr m)).Nodup
    rw [CoreDevice.cusr_add]
    exact hs m
  | assigned u => exact iff_of_true hs trivial
  | destroyed u => exact iff_of_true hs trivial

end UserTrack

/-- **One entry for a port.**  In every run of the tracking system every device has at
most one entry for each port name, in all states of the run, if and only if every look-up
that takes its record from the billing store finds nobody else on the port. -/
theorem track_one_per_port_iff (md5 : Bytes → Digest) (as : List (World × TrackOp)) :
    (tracking md5).Always (fun _ s => s.OnePerPort) ((tracking md5).history as) ↔
      (tracking md5).EveryStep (fun _ s i => s.KeepsPorts i.2) ((tracking md5).history as) := by
  have h0 : (tracking md5).init.OnePerPort := fun n => List.nodup_nil
  refine (Machine.reaches_history _ as).always_iff_everyStep h0 ?_
  intro _ s i s' e _ hs h
  obtain ⟨rfl, -⟩ := Prod.mk.inj (Except.ok.inj h)
  exact hs.run_iff md5 i.2

/-! ## A second user on a port -/

/-- `ann` comes to another device, `bob` to the port, and then `ann` to the port. -/
def annBesideBob : List (World × TrackOp) :=
  openRun [.device (str "10.0.0.1"), .device (str "10.0.0.2"),
    .get2add (str "ann") (str "10.0.0.2") (str "As1") [],
    .get2add (str "bob") (str "10.0.0.1") (str "As1") [],
    .get2add (str "ann") (str "10.0.0.1") (str "As1") []]

/-- Both are on the port. -/
theorem track_two_on_port :
    ¬ ∀ (md5 : Bytes → Digest) (as : List (World × TrackOp)),
      (tracking md5).Always (fun _ s => s.OnePerPort) ((tracking md5).history as) := by
  intro hclaim
  have hnodup := hclaim (fun _ => constDigest 0) annBesideBob
    ((tracking _).history annBesideBob) [] _ (List.append_nil _).symm
    (Machine.reaches_history _ annBesideBob) (str "10.0.0.1")
  exact absurd hnodup (by decide)

/-! ## STOP -/

/-- The entries on a device that are not those of this user on this port. -/
def UserTrack.others (s : UserTrack) (u n p m : Bytes) : List DeviceUserData :=
  (s.cusr m).filter fun e => !(decide (e.username = u) && decide (m = n) && decide (e.port = p))

/-- **STOP ends the session of its own user only, exactly when its user is the first on
the port.**  In every state of the tracking system: the entries of all other users and of
all other devices and ports stay if and only if the first entry on the port, when there is
one, is this user's. -/
theorem track_stop_frame_iff (s : UserTrack) (u n p : Bytes) :
    (∀ m, (s.del u n p).2.others u n p m = s.others u n p m) ↔
      ∀ e, firstOn p (s.cusr n) = some e → e.username = u := by
  have hcusr : ∀ m, (s.del u n p).2.cusr m =
      if m = n then (usrDel p (s.cusr n)).cusr else s.cusr m := fun m => s.sweep_cusr n rfl m
  have hother : ∀ m, m ≠ n → (s.del u n p).2.others u n p m = s.others u n p m := by
    intro m hm
    rw [UserTrack.others, hcusr, if_neg hm]
    rfl
  have hown : (s.del u n p).2.others u n p n = (usrDel p (s.cusr n)).cusr.filter fun e =>
      !(decide (e.username = u) && decide (n = n) && decide (e.port = p)) := by
    rw [UserTrack.others, hcusr, if_pos rfl]
  rcases usrDel_cases p (s.cusr n) with ⟨hnot, hdel⟩ | ⟨l, e, l', hsplit, hnot, he, hdel⟩
  · refine iff_of_true (fun m => ?_) ?_
    · by_cases hm : m = n
      · subst hm
        rw [hown, hdel]
        rfl
      · exact hother m hm
    · intro e hfind
      rw [firstOn_of_notOn hnot] at hfind
      contradiction
  · have hfind : firstOn p (s.cusr n) = some e := by
      rw [hsplit]
      exact firstOn_append hnot he
    constructor
    · intro hframe x hx
      rw [hfind] at hx
      obtain rfl := Option.some.inj hx
      -- another user's entry is missing afterwards
      by_contra hne
      have hlen := congrArg List.length (hframe n)
      rw [hown, hdel, UserTrack.others, hsplit] at hlen
      simp [hne] at hlen
    · intro hmine m
      by_cases hm : m = n
      · subst hm
        have heu := hmine e hfind
        rw [hown, hdel, UserTrack.others, hsplit]
        simp [heu, he]
      · exact hother m hm

/-- `ann` starts on a port, `bob` comes to the same port and starts there, and then the
STOP of `ann` arrives. -/
def lateStop : List (World × TrackOp) :=
  openRun [.device (str "10.0.0.1"), .get2add (str "ann") (str "10.0.0.1") (str "As1") [],
    .add (str "ann") (str "10.0.0.1") (str "As1") [] unknownIp,
    .get2add (str "bob") (str "10.0.0.1") (str "As1") [],
    .add (str "bob") (str "10.0.0.1") (str "As1") [] unknownIp]

/-- The late STOP of `ann` deletes the entry of `bob`. -/
theorem track_late_stop :
    ¬ ∀ (md5 : Bytes → Digest) (h : List ((World × TrackOp) × Bool)) (s : UserTrack)
      (u n p : Bytes), (tracking md5).Reaches h s →
        ∀ m, (s.del u n p).2.others u n p m = s.others u n p m := by
  intro hclaim
  have hframe := hclaim (fun _ => constDigest 0) _ _ (str "ann") (str "10.0.0.1") (str "As1")
    (Machine.reaches_history _ lateStop) (str "10.0.0.1")
  exact absurd hframe (by decide)

end Tacppd
