/-
# The answer to a START

`UserTrack::add` should say `true` exactly when the user is active on the port afterwards,
and it should say so for every user in the database.  It tries to activate an entry, looks
the user up when there is none, and tries again, but only for a user with an open time,
and without a look at the result.

Everything happens to the entries on the port, one behind the other: each failing attempt
takes the first one out.  `track_start_iff` says for which of them the answer is right.
-/
import Tacppd.TrackPlace

namespace Tacppd

/-! ## The entries on a port -/

/-- The entries on a port, in their order. -/
def onPort (p : Bytes) (cusr : List DeviceUserData) : List DeviceUserData :=
  cusr.filter fun e => decide (e.port = p)

section

variable {p u t ua : Bytes} {now : ℤ} {cusr l l' q : List DeviceUserData} {e : DeviceUserData}

theorem mem_onPort : e ∈ onPort p cusr ↔ e ∈ cusr ∧ e.port = p := by
  simp [onPort]

theorem onPort_of_notOn (h : NotOn p cusr) : onPort p cusr = [] := by
  rw [onPort, List.filter_eq_nil_iff]
  intro e he
  simpa using h e he

theorem onPort_append : onPort p (l ++ l') = onPort p l ++ onPort p l' := List.filter_append ..

theorem onPort_cons (he : e.port = p) : onPort p (e :: l) = e :: onPort p l := by
  simp [onPort, he]

/-- The first entry on a port, and what is behind it. -/
theorem onPort_split (hnot : NotOn p l) (he : e.port = p) :
    onPort p (l ++ e :: l') = e :: onPort p (l ++ l') := by
  rw [onPort_append, onPort_append, onPort_of_notOn hnot, onPort_cons he]
  rfl

theorem onPort_usrDel (p : Bytes) (cusr : List DeviceUserData) :
    onPort p (usrDel p cusr).cusr = (onPort p cusr).tail := by
  rcases usrDel_cases p cusr with ⟨hnot, hdel⟩ | ⟨l, e, l', rfl, hnot, he, hdel⟩
  · rw [hdel, onPort_of_notOn hnot]
    rfl
  · rw [hdel, onPort_split hnot he]
    rfl

/-- An attempt on a port with nobody on it, with the user in front, or with another one. -/
theorem onPort_usrActivate (now : ℤ) (u p t ua : Bytes) (cusr : List DeviceUserData) :
    ((usrActivate now u p t ua cusr).res = false ∧
      (∀ e ∈ (onPort p cusr).head?, e.username ≠ u) ∧
      onPort p (usrActivate now u p t ua cusr).cusr = (onPort p cusr).tail) ∨
    ∃ e q, onPort p cusr = e :: q ∧ e.username = u ∧
      (usrActivate now u p t ua cusr).res = true ∧
      onPort p (usrActivate now u p t ua cusr).cusr = (e.update now p t ua).setActive :: q := by
  rcases usrActivate_cases now u p t ua cusr with
    ⟨hnot, hact⟩ | ⟨l, e, l', rfl, hnot, he, hu, hact⟩ | ⟨l, e, l', rfl, hnot, he, hu, hact⟩
  · left
    rw [hact, onPort_of_notOn hnot]
    exact ⟨rfl, by simp, rfl⟩
  · right
    refine ⟨e, onPort p (l ++ l'), onPort_split hnot he, hu, ?_, ?_⟩
    · rw [hact]
    · rw [hact]
      exact onPort_split hnot rfl
  · left
    rw [hact, onPort_split hnot he]
    exact ⟨rfl, by simpa using hu, rfl⟩

theorem isPresent_iff : isPresent u p cusr = true ↔ ∃ e ∈ onPort p cusr, e.username = u := by
  simp only [isPresent, List.any_eq_true, Bool.and_eq_true, decide_eq_true_eq, mem_onPort]
  constructor
  · rintro ⟨e, he, hp, hu⟩
    exact ⟨e, ⟨he, hp⟩, hu⟩
  · rintro ⟨e, ⟨he, hp⟩, hu⟩
    exact ⟨e, he, hp, hu⟩

end

/-! ## Active entries come first -/

/-- What holds of the list of every device: it holds of a list without entries, and the four
things that are done to a list keep it. -/
structure KeptByLoops (P : List DeviceUserData → Prop) : Prop where
  nil : P []
  sublist : ∀ {l l'}, l'.Sublist l → P l → P l'
  concat : ∀ {l e}, P l → e.active = false → P (l ++ [e])
  activate : ∀ {l e l' e'}, P (l ++ e :: l') → NotOn e.port l → e'.port = e.port → P (l ++ e' :: l')

/-- The same for what may depend on the device, with all that is known of a new entry and of
an entry that is activated. -/
structure KeptOnDevices (P : Bytes → List DeviceUserData → Prop) : Prop where
  nil : ∀ {n}, P n []
  sublist : ∀ {n l l'}, l'.Sublist l → P n l → P n l'
  concat : ∀ {n l e}, P n l → e.active = false → e.nasaddr = n →
    isPresent e.username e.port l = false → P n (l ++ [e])
  activate : ∀ {n l e l' e'}, P n (l ++ e :: l') → NotOn e.port l → e'.port = e.port →
    e'.username = e.username → e'.nasaddr = e.nasaddr → P n (l ++ e' :: l')

theorem KeptByLoops.onDevices {P : List DeviceUserData → Prop} (hP : KeptByLoops P) :
    KeptOnDevices fun _ => P where
  nil := hP.nil
  sublist := hP.sublist
  concat h hactive _ _ := hP.concat h hactive
  activate h hnot hport _ _ := hP.activate h hnot hport

section

variable {P : Bytes → List DeviceUserData → Prop} {s : UserTrack} {w : World}

/-- A loop over the list of one device. -/
theorem forall_cusr_sweep (hs : ∀ n, P n (s.cusr n)) (n : Bytes)
    {f : List DeviceUserData → Swept} (hf : ∀ cusr, P n cusr → P n (f cusr).cusr)
    (hnil : (f []).cusr = []) : ∀ m, P m ((s.sweep n f).2.cusr m) := by
  intro m
  rw [s.sweep_cusr n hnil]
  split
  · next hm =>
    subst hm
    exact hf _ (hs m)
  · exact hs m

namespace KeptOnDevices

theorem usrDel (hP : KeptOnDevices P) (hs : ∀ n, P n (s.cusr n)) (n p : Bytes) :
    ∀ m, P m ((s.usrDel n p).2.cusr m) := by
  refine forall_cusr_sweep hs n (fun cusr h => ?_) rfl
  rcases usrDel_cases p cusr with ⟨-, hdel⟩ | ⟨l, e, l', rfl, -, -, hdel⟩
  · rwa [hdel]
  · rw [hdel]
    exact hP.sublist ((List.Sublist.refl l).append (List.sublist_cons_self e l')) h

theorem usrActivate (hP : KeptOnDevices P) (hs : ∀ n, P n (s.cusr n)) (now : ℤ)
    (n u p t ua : Bytes) : ∀ m, P m ((s.usrActivate now n u p t ua).2.cusr m) := by
  refine forall_cusr_sweep hs n (fun cusr h => ?_) rfl
  rcases usrActivate_cases now u p t ua cusr with ⟨-, hact⟩ | ⟨l, e, l', rfl, hnot, he, -, hact⟩ |
    ⟨l, e, l', rfl, -, -, -, hact⟩
  · rwa [hact]
  · rw [hact]
    exact hP.activate h (he ▸ hnot) he.symm rfl rfl
  · rw [hact]
    exact hP.sublist ((List.Sublist.refl l).append (List.sublist_cons_self e l')) h

theorem usrAdd (hP : KeptOnDevices P) (hs : ∀ n, P n (s.cusr n)) (now : ℤ) (n u p t : Bytes)
    (d : UserRecord) : ∀ m, P m ((s.usrAdd now n u p t d).cusr m) := by
  intro m
  rw [s.usrAdd_cusr]
  split
  · next h =>
    rw [h.1]
    exact hP.concat (hs n) rfl rfl h.2.2
  · exact hs m

theorem get2add (hP : KeptOnDevices P) (hs : ∀ n, P n (s.cusr n)) (u n p t : Bytes) :
    ∀ m, P m ((s.get2add w u n p t).2.cusr m) := by
  rcases s.get2add_cases w u n p t with ⟨-, hget⟩ | ⟨-, -, hget⟩ | ⟨-, -, hget⟩
  · rw [hget]
    exact hP.usrAdd hs w.now n u p t _
  · rw [hget]
    exact hs
  · rw [hget]
    exact hP.usrAdd (hP.usrDel (s := { s with dbec := (s.lookUp w u).2 }) hs n p) w.now n u p t _

theorem add (hP : KeptOnDevices P) (hs : ∀ n, P n (s.cusr n)) (u c p t ua : Bytes) :
    ∀ m, P m ((s.add w u c p t ua).2.cusr m) := by
  have hfirst := hP.usrActivate hs w.now c u p t ua
  have hfound := hP.get2add (w := w) hfirst u c p t
  rcases s.add_cases w u c p t ua with ⟨-, hadd⟩ | ⟨-, -, hadd⟩ | ⟨-, -, hadd⟩
  · rw [hadd]
    exact hfirst
  · rw [hadd]
    exact hP.usrActivate hfound w.now c u p t ua
  · rw [hadd]
    exact hfound

theorem expireLoop (hP : KeptOnDevices P) (hs : ∀ n, P n (s.cusr n)) (now : ℤ)
    (nas : List Device) : ∀ m, P m ((UserTrack.expireLoop now nas s).cusr m) := by
  induction nas generalizing s with
  | nil => exact hs
  | cons d nas ih =>
    exact ih (forall_cusr_sweep hs d.hostaddr (fun _ h => hP.sublist List.filter_sublist h) rfl)

/-- It holds in every state that is reached. -/
theorem reaches (hP : KeptOnDevices P) {md5 : Bytes → Digest}
    {h : List ((World × TrackOp) × Bool)} (hr : (tracking md5).Reaches h s) :
    ∀ n, P n (s.cusr n) := by
  refine Machine.Reaches.invariant _ (I := fun _ s => ∀ n, P n (s.cusr n)) (fun n => hP.nil) ?_ hr
  intro _ s i s' e _ hs h
  obtain ⟨rfl, -⟩ := Prod.mk.inj (Except.ok.inj h)
  obtain ⟨w, op⟩ := i
  cases op with
  | authenticate call => exact hP.get2add hs call.user call.nas call.port call.remAddr
  | get2add u nas p t => exact hP.get2add hs u nas p t
  | add u c p t ua => exact hP.add hs u c p t ua
  | del u c p => exact hP.usrDel hs c p
  | expire => exact hP.expireLoop hs w.now s.device.nas
  | down n => exact forall_cusr_sweep hs n (fun _ _ => hP.nil) rfl
  | device n =>
    intro m
    show P m ((s.device.add n).cusr m)
    rw [CoreDevice.cusr_add]
    exact hs m
  | assigned u => exact hs
  | destroyed u => exact hs

end KeptOnDevices

end

/-- Behind another entry on its port nobody is active. -/
def ActiveFirst (cusr : List DeviceUserData) : Prop :=
  cusr.Pairwise fun a b => b.active = true → a.port ≠ b.port

theorem activeFirst_kept : KeptByLoops ActiveFirst where
  nil := List.Pairwise.nil
  sublist hsub h := h.sublist hsub
  concat := by
    intro l e h he
    rw [ActiveFirst, List.pairwise_append]
    refine ⟨h, List.pairwise_singleton _ _, ?_⟩
    intro a _ b hb hactive
    rw [List.mem_singleton.mp hb, he] at hactive
    contradiction
  activate := by
    intro l e l' e' h hnot hport
    rw [ActiveFirst, List.pairwise_append, List.pairwise_cons] at h ⊢
    obtain ⟨hl, ⟨he, hl'⟩, hcross⟩ := h
    refine ⟨hl, ⟨fun b hb hactive => hport ▸ he b hb hactive, hl'⟩, ?_⟩
    intro a ha b hb hactive
    rcases List.mem_cons.mp hb with rfl | hb
    · rw [hport]
      exact hnot a ha
    · exact hcross a ha b (List.mem_cons_of_mem _ hb) hactive

theorem ActiveFirst.tail {p : Bytes} {cusr : List DeviceUserData} (h : ActiveFirst cusr) :
    ∀ e ∈ (onPort p cusr).tail, e.active = false := by
  have hport : ∀ e ∈ onPort p cusr, e.port = p := fun e he => (mem_onPort.mp he).2
  have hpair : ActiveFirst (onPort p cusr) := List.Pairwise.sublist List.filter_sublist h
  cases hq : onPort p cusr with
  | nil => simp
  | cons a q =>
    rw [hq] at hport hpair
    intro e he
    rw [Bool.eq_false_iff]
    intro hactive
    exact (List.pairwise_cons.mp hpair).1 e he hactive
      ((hport a (by simp)).trans (hport e (by simp [show e ∈ q from he])).symm)

/-! ## The record that is found -/

namespace UserTrack

variable {s : UserTrack} {w : World} {u c p t ua : Bytes}

/-- In the cache only records that count go by a name. -/
def CachedFound (s : UserTrack) : Prop :=
  ∀ x ∈ s.dbec, x.entry.username ≠ [] → x.entry.data.result = true

theorem cachedFound_lookUp (hs : s.CachedFound) :
    CachedFound { s with dbec := (s.lookUp w u).2 } := by
  intro x hx hname
  have hx' : x ∈ (s.lookUp w u).2 := hx
  unfold UserTrack.lookUp at hx'
  simp only at hx'
  split at hx'
  · exact hs x (mem_of_mem_dbcPresent hx') hname
  · rcases List.mem_append.mp hx' with hx | hx
    · exact hs x (mem_of_mem_dbcPresent hx) hname
    · rw [List.mem_singleton.mp hx] at hname ⊢
      by_contra hres
      exact hname (World.get_username_of_not hres)

theorem cachedFound_usrAdd (hs : s.CachedFound) (now : ℤ) (n u p t : Bytes) (d : UserRecord) :
    (s.usrAdd now n u p t d).CachedFound := by
  unfold UserTrack.usrAdd
  split
  · exact hs
  · exact hs

theorem cachedFound_get2add (hs : s.CachedFound) (n u p t : Bytes) :
    (s.get2add w u n p t).2.CachedFound := by
  rcases s.get2add_cases w u n p t with ⟨-, hget⟩ | ⟨-, -, hget⟩ | ⟨-, -, hget⟩
  · rw [hget]
    exact cachedFound_usrAdd hs _ _ _ _ _ _
  · rw [hget]
    exact cachedFound_lookUp hs
  · rw [hget]
    exact cachedFound_usrAdd (s := (UserTrack.usrDel { s with dbec := (s.lookUp w u).2 } n p).2)
      (cachedFound_lookUp hs) _ _ _ _ _ _

theorem cachedFound_add (hs : s.CachedFound) : (s.add w u c p t ua).2.CachedFound := by
  have hfound : (s.addFound w u c p t ua).2.CachedFound :=
    cachedFound_get2add (s := (s.usrActivate w.now c u p t ua).2) hs c u p t
  rcases s.add_cases w u c p t ua with ⟨-, hadd⟩ | ⟨-, -, hadd⟩ | ⟨-, -, hadd⟩
  · rw [hadd]
    exact hs
  · rw [hadd]
    exact hfound
  · rw [hadd]
    exact hfound

theorem cachedFound_expireLoop (hs : s.CachedFound) (now : ℤ) (nas : List Device) :
    (UserTrack.expireLoop now nas s).CachedFound := by
  induction nas generalizing s with
  | nil => exact hs
  | cons d nas ih => exact ih (s := (s.sweep d.hostaddr (usrExpire now)).2) hs

theorem reaches_cachedFound {md5 : Bytes → Digest} {h : List ((World × TrackOp) × Bool)}
    (hr : (tracking md5).Reaches h s) : s.CachedFound := by
  have hinit : (tracking md5).init.CachedFound := by
    intro x hx
    contradiction
  refine Machine.Reaches.invariant _ (I := fun _ s => s.CachedFound) hinit ?_ hr
  intro _ s i s' e _ hs h
  obtain ⟨rfl, -⟩ := Prod.mk.inj (Except.ok.inj h)
  obtain ⟨w, op⟩ := i
  cases op with
  | authenticate call => exact cachedFound_get2add hs _ _ _ _
  | get2add u nas p t => exact cachedFound_get2add hs _ _ _ _
  | add u c p t ua => exact cachedFound_add hs
  | del u c p => exact hs
  | expire => exact cachedFound_expireLoop hs _ _
  | down n => exact hs
  | device n => exact hs
  | assigned u => exact hs
  | destroyed u => exact hs

/-- The record that `get2add` takes. -/
def recordFor (s : UserTrack) (w : World) (u : Bytes) : UserRecord :=
  if (s.billing.getUd u).data.result then s.billing.getUd u else (s.lookUp w u).1

/-- For a user in the database it counts. -/
theorem recordFor_result (hs : s.CachedFound) (hdb : (w.get u).data.result = true) :
    (s.recordFor w u).data.result = true := by
  have hu : u ≠ [] := by
    rintro rfl
    rw [World.result_nil] at hdb
    contradiction
  rw [recordFor]
  split
  · assumption
  · unfold UserTrack.lookUp
    simp only
    split
    · next hp =>
      obtain ⟨y, hy, hyu⟩ := exists_of_dbcPresent hp
      rw [dbcGet]
      cases hfind : (dbcPresent w.now u s.dbec).2.find?
          (fun x => decide (x.entry.username = u)) with
      | none =>
        rw [List.find?_eq_none] at hfind
        exact absurd (decide_eq_true hyu) (hfind y hy)
      | some x =>
        have hname : x.entry.username = u := by simpa using List.find?_some hfind
        exact hs x (mem_of_mem_dbcPresent (List.mem_of_find?_eq_some hfind)) (hname ▸ hu)
    · exact hdb

/-- A failing attempt leaves the record of the user alone: it deletes another user's entry. -/
theorem recordFor_usrActivate {now : ℤ} (hres : (s.usrActivate now c u p t ua).1 = false) :
    (s.usrActivate now c u p t ua).2.recordFor w u = s.recordFor w u ∧
      ((s.usrActivate now c u p t ua).2.billing.getUd u).data.result =
        (s.billing.getUd u).data.result := by
  have hget : (s.usrActivate now c u p t ua).2.billing.getUd u = s.billing.getUd u := by
    rcases usrActivate_cases now u p t ua (s.cusr c) with ⟨-, hact⟩ | ⟨l, e, l', -, -, -, -, hact⟩ |
      ⟨l, e, l', -, -, -, hu, hact⟩
    · rw [UserTrack.usrActivate, UserTrack.sweep, hact]
      rfl
    · rw [UserTrack.usrActivate, UserTrack.sweep, hact] at hres
      contradiction
    · rw [UserTrack.usrActivate, UserTrack.sweep, hact]
      show (s.billing.delUd e.username).getUd u = _
      rw [CoreBilling.getUd, CoreBilling.find_delUd, if_neg (Ne.symm hu), CoreBilling.getUd]
  refine ⟨?_, by rw [hget]⟩
  rw [recordFor, hget]
  rfl

/-! ## The answer -/

/-- How many entries `add` can take off the port of a user it does not find in front:
`get2add` takes one more for a user without a record in the billing store. -/
def takenOff (s : UserTrack) (u : Bytes) : ℕ := if (s.billing.getUd u).data.result then 1 else 2

/-- The queue of a port with the user on it. -/
def joined (new : DeviceUserData) (q : List DeviceUserData) : List DeviceUserData :=
  if q.any fun e => decide (e.username = new.username) then q else q ++ [new]

theorem onPort_usrAdd {now : ℤ} (hknown : s.device.known c = true) (d : UserRecord) :
    onPort p ((s.usrAdd now c u p t d).cusr c) =
      joined ⟨u, p, t, false, now, c, unknownIp⟩ (onPort p (s.cusr c)) := by
  have hpresent : isPresent u p (s.cusr c) =
      (onPort p (s.cusr c)).any fun e => decide (e.username = u) := by
    rw [Bool.eq_iff_iff, isPresent_iff]
    simp
  rw [s.usrAdd_cusr, joined, ← hpresent]
  cases isPresent u p (s.cusr c) with
  | true => simp
  | false => simp [hknown, onPort]

/-- What the look-up finds and leaves on the port. -/
theorem onPort_get2add (hknown : s.device.known c = true)
    (hfound : (s.recordFor w u).data.result = true) :
    (s.get2add w u c p t).1 = s.recordFor w u ∧
      onPort p ((s.get2add w u c p t).2.cusr c) =
        joined (newEntry w u c p t) ((onPort p (s.cusr c)).drop (s.takenOff u - 1)) := by
  rcases s.get2add_cases w u c p t with ⟨hres, hget⟩ | ⟨hres, hnone, -⟩ | ⟨hres, -, hget⟩
  · rw [hget, recordFor, takenOff, if_pos hres, if_pos hres]
    exact ⟨rfl, onPort_usrAdd hknown _⟩
  · rw [recordFor, if_neg (by simp [hres]), hnone] at hfound
    contradiction
  · rw [hget, recordFor, takenOff, if_neg (by simp [hres]), if_neg (by simp [hres])]
    refine ⟨rfl, ?_⟩
    have hdel : onPort p ((UserTrack.usrDel { s with dbec := (s.lookUp w u).2 } c p).2.cusr c) =
        (onPort p (s.cusr c)).drop 1 := by
      rw [UserTrack.usrDel, UserTrack.sweep_cusr _ c rfl, if_pos rfl, onPort_usrDel, List.drop_one]
      rfl
    have hstill : (UserTrack.usrDel { s with dbec := (s.lookUp w u).2 } c p).2.device.known c =
        true := (known_sweep _ c c _).trans hknown
    show onPort p ((UserTrack.usrAdd _ w.now c u p t _).cusr c) = _
    rw [onPort_usrAdd hstill, hdel]
    rfl

/-- The user is active on the port. -/
def ActiveOn (s : UserTrack) (c u p : Bytes) : Prop :=
  ∃ e ∈ s.cusr c, e.username = u ∧ e.port = p ∧ e.active = true

theorem activeOn_iff :
    s.ActiveOn c u p ↔ ∃ e ∈ onPort p (s.cusr c), e.username = u ∧ e.active = true := by
  simp only [ActiveOn, mem_onPort]
  constructor
  · rintro ⟨e, he, hu, hp, hactive⟩
    exact ⟨e, ⟨he, hp⟩, hu, hactive⟩
  · rintro ⟨e, ⟨he, hp⟩, hu, hactive⟩
    exact ⟨e, he, hu, hp, hactive⟩

/-- What `add` should do: it says `true`, and this means that the user is active. -/
structure Started (s : UserTrack) (w : World) (u c p t ua : Bytes) : Prop where
  answer : (s.add w u c p t ua).1 = true ↔ (s.add w u c p t ua).2.ActiveOn c u p
  started : (s.add w u c p t ua).1 = true

/-- The user is in front on the port; or has an open time, and comes to the front, or to an
empty port, when the entries before are taken off. -/
def CanStart (s : UserTrack) (w : World) (u c p : Bytes) : Prop :=
  (∃ e ∈ (onPort p (s.cusr c)).head?, e.username = u) ∨
    ((s.recordFor w u).data.openTime ≠ 0 ∧
      ∀ e ∈ ((onPort p (s.cusr c)).drop (s.takenOff u)).head?, e.username = u)

theorem cusr_usrActivate (s : UserTrack) (now : ℤ) (c u p t ua : Bytes) :
    (s.usrActivate now c u p t ua).2.cusr c =
      (Tacppd.usrActivate now u p t ua (s.cusr c)).cusr := by
  rw [UserTrack.usrActivate, UserTrack.sweep_cusr _ c rfl, if_pos rfl]

/-- The second attempt, on a port where nobody is active. -/
theorem activeOn_second {new : DeviceUserData} {q : List DeviceUserData} {now : ℤ}
    (hq : onPort p (s.cusr c) = joined new q) (hnew : new.username = u)
    (hinactive : new.active = false) (hidle : ∀ e ∈ q, e.active = false) :
    (s.usrActivate now c u p t ua).2.ActiveOn c u p ↔ ∀ e ∈ q.head?, e.username = u := by
  have hjoined : ∀ e ∈ joined new q, e.active = false := by
    intro e he
    rw [joined] at he
    split at he
    · exact hidle e he
    · rcases List.mem_append.mp he with he | he
      · exact hidle e he
      · rw [List.mem_singleton.mp he]
        exact hinactive
  have hhead : ∀ a q', q = a :: q' → (joined new q).head? = some a := by
    rintro a q' rfl
    rw [joined]
    split <;> rfl
  rw [activeOn_iff, cusr_usrActivate]
  rcases onPort_usrActivate now u p t ua (s.cusr c) with ⟨-, hfirst, hleft⟩ |
    ⟨e, q', hfirst, hu, -, hleft⟩
  · -- another user's entry is in front, and is deleted
    rw [hq] at hfirst
    rw [hleft, hq]
    refine iff_of_false ?_ ?_
    · rintro ⟨e, he, -, hactive⟩
      rw [hjoined e (List.mem_of_mem_tail he)] at hactive
      contradiction
    · intro hall
      cases hqueue : q with
      | nil =>
        rw [hqueue] at hfirst
        exact hfirst new (by simp [joined]) hnew
      | cons a q' =>
        rw [hqueue] at hall
        exact hfirst a (hhead a q' hqueue) (hall a (by simp))
  · rw [hleft]
    refine iff_of_true ⟨(e.update now p t ua).setActive, by simp, hu, rfl⟩ ?_
    intro a ha
    obtain ⟨q'', hqueue⟩ := List.head?_eq_some_iff.mp ha
    have hsame := hhead a q'' hqueue
    rw [← hq, hfirst] at hsame
    rw [← Option.some.inj hsame]
    exact hu

/-- **The answer of `add`** on a device where active entries come first. -/
theorem started_iff (hactive : ActiveFirst (s.cusr c)) (hknown : s.device.known c = true)
    (hfound : (s.recordFor w u).data.result = true) :
    s.Started w u c p t ua ↔ s.CanStart w u c p := by
  rcases onPort_usrActivate w.now u p t ua (s.cusr c) with ⟨hres, hfirst, hleft⟩ |
    ⟨e, q, hqueue, hu, hres, hleft⟩
  · -- the attempt fails and takes the first entry off; the look-up takes another one
    obtain ⟨hrecord, hstored⟩ := @recordFor_usrActivate s w u c p t ua w.now hres
    have hstill := (s.known_sweep c c (Tacppd.usrActivate w.now u p t ua)).trans hknown
    have hget := @onPort_get2add (s.usrActivate w.now c u p t ua).2 w u c p t hstill
      (hrecord ▸ hfound)
    have hrest : onPort p ((s.addFound w u c p t ua).2.cusr c) =
        joined (newEntry w u c p t) ((onPort p (s.cusr c)).drop (s.takenOff u)) := by
      have hpos : 1 + (s.takenOff u - 1) = s.takenOff u := by
        rw [takenOff]
        split <;> rfl
      have htaken : (s.usrActivate w.now c u p t ua).2.takenOff u = s.takenOff u := by
        rw [takenOff, hstored, takenOff]
      rw [addFound, hget.2, cusr_usrActivate, hleft, htaken, ← List.drop_one, List.drop_drop, hpos]
    have hidle : ∀ e ∈ (onPort p (s.cusr c)).drop (s.takenOff u), e.active = false := by
      intro e he
      have htail : e ∈ (onPort p (s.cusr c)).tail := by
        rw [← List.drop_one]
        refine List.drop_subset_drop_left _ ?_ he
        rw [takenOff]
        split <;> decide
      exact hactive.tail e htail
    have hcan : s.CanStart w u c p ↔ (s.recordFor w u).data.openTime ≠ 0 ∧
        ∀ e ∈ ((onPort p (s.cusr c)).drop (s.takenOff u)).head?, e.username = u := by
      refine or_iff_right ?_
      rintro ⟨e, he, hu⟩
      exact hfirst e he hu
    have hname : (s.addFound w u c p t ua).1 = s.recordFor w u := hget.1.trans hrecord
    rw [hcan]
    rcases s.add_cases w u c p t ua with ⟨hres', -⟩ | ⟨-, haddable, hadd⟩ | ⟨-, haddable, hadd⟩
    · rw [show (s.usrActivate w.now c u p t ua).1 = false from hres] at hres'
      contradiction
    · -- the second attempt, with `true` whatever its result
      rw [hname] at haddable
      have hsecond :=
        @activeOn_second (s.addFound w u c p t ua).2 u c p t ua _ _ w.now hrest rfl rfl hidle
      constructor
      · intro h
        have hactive' := h.answer.mp h.started
        rw [hadd] at hactive'
        exact ⟨haddable.2, hsecond.mp hactive'⟩
      · rintro ⟨-, hhead⟩
        constructor
        · rw [hadd]
          exact iff_of_true rfl (hsecond.mpr hhead)
        · rw [hadd]
    · -- no second attempt for a user without an open time
      rw [hname] at haddable
      refine iff_of_false (fun h => ?_) fun h => haddable ⟨hfound, h.1⟩
      have hfalse := h.started
      rw [hadd] at hfalse
      contradiction
  · -- the user is in front
    refine iff_of_true ?_ (Or.inl ⟨e, by simp [hqueue], hu⟩)
    rcases s.add_cases w u c p t ua with ⟨-, hadd⟩ | ⟨hres', -⟩ | ⟨hres', -⟩
    · have hactive' : (s.usrActivate w.now c u p t ua).2.ActiveOn c u p := by
        rw [activeOn_iff, cusr_usrActivate, hleft]
        exact ⟨(e.update w.now p t ua).setActive, by simp, hu, rfl⟩
      constructor
      · rw [hadd]
        exact iff_of_true rfl hactive'
      · rw [hadd]
    · rw [show (s.usrActivate w.now c u p t ua).1 = true from hres] at hres'
      contradiction
    · rw [show (s.usrActivate w.now c u p t ua).1 = true from hres] at hres'
      contradiction

end UserTrack

/-- **START tracking.**  In every state that is reached, for every user in the database on a
device that is known, the answer is right exactly when the user can start. -/
theorem track_start_iff (md5 : Bytes → Digest) {h : List ((World × TrackOp) × Bool)}
    {s : UserTrack} (hr : (tracking md5).Reaches h s) {w : World} {u c : Bytes} (p t ua : Bytes)
    (hdb : (w.get u).data.result = true) (hknown : s.device.known c = true) :
    s.Started w u c p t ua ↔ s.CanStart w u c p :=
  UserTrack.started_iff (activeFirst_kept.onDevices.reaches hr c) hknown
    (UserTrack.recordFor_result (UserTrack.reaches_cachedFound hr) hdb)

/-- A device is configured, and `ann` logs in on a port of it. -/
def annComes : List (World × TrackOp) :=
  openRun [.device (str "10.0.0.1"), .get2add (str "ann") (str "10.0.0.1") (str "As1") []]

/-- The START of `ann`. -/
theorem track_start_ann :
    UserTrack.Started ((tracking fun _ => constDigest 0).final annComes)
      openWorld (str "ann") (str "10.0.0.1") (str "As1") [] unknownIp :=
  (track_start_iff _ (Machine.reaches_history _ annComes) (str "As1") [] unknownIp rfl
    (by decide +kernel)).mpr (Or.inl (by decide +kernel))

/-- The START of a user who did not log in, and has no open time. -/
theorem track_start_closed :
    ¬ ∀ (h : List ((World × TrackOp) × Bool)) (s : UserTrack) (w : World) (u c p t ua : Bytes),
      (tracking fun _ => constDigest 0).Reaches h s → (w.get u).data.result = true →
        s.device.known c = true → s.Started w u c p t ua := by
  intro h
  have hr := Machine.reaches_history (tracking fun _ => constDigest 0)
    (openRun [.device (str "10.0.0.1")])
  have hstarted := (h _ _ openWorld (str "ann") (str "10.0.0.1") (str "As1") [] unknownIp hr rfl
    (by decide +kernel)).started
  revert hstarted
  decide +kernel

end Tacppd
