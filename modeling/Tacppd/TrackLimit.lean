/-
# The session limit

`db_authentication` refuses a user who has as many active sessions as the record allows.
The entry it makes is inactive, though, and counts only when accounting activates it,
without a further look at the limit.  So two logins that come before their STARTs are both
let in.

The limit is kept when every activation finds room, or when it is that of the user's last
login: no other accounting record of the user has come since.
-/
import Tacppd.Track

namespace Tacppd

/-! ## Counting on one device -/

/-- The sessions of a user among the entries of a device. -/
def sessionsOf (u : Bytes) (cusr : List DeviceUserData) : ℕ :=
  cusr.countP (DeviceUserData.counts u)

theorem sessionsOf_append (u : Bytes) (l l' : List DeviceUserData) :
    sessionsOf u (l ++ l') = sessionsOf u l + sessionsOf u l' := List.countP_append

theorem sessionsOf_cons (u : Bytes) (e : DeviceUserData) (l : List DeviceUserData) :
    sessionsOf u (e :: l) = (if e.counts u then 1 else 0) + sessionsOf u l := by
  rw [sessionsOf, List.countP_cons, Nat.add_comm]
  rfl

/-- `usr_del` ends sessions only. -/
theorem sessionsOf_usrDel (v p : Bytes) (cusr : List DeviceUserData) :
    sessionsOf v (usrDel p cusr).cusr ≤ sessionsOf v cusr := by
  rcases usrDel_cases p cusr with ⟨-, hdel⟩ | ⟨l, e, l', rfl, -, -, hdel⟩
  · rw [hdel]
  · rw [hdel, sessionsOf_append, sessionsOf_append, sessionsOf_cons]
    omega

/-- An entry counts for its own user only. -/
theorem counts_of_ne {e : DeviceUserData} {v : Bytes} (h : e.username ≠ v) :
    e.counts v = false := by
  simp [DeviceUserData.counts, h]

/-- An entry on another kind of port never counts. -/
theorem counts_of_port {e : DeviceUserData} {v : Bytes}
    (h : DeviceUserData.countedPort e.port = false) : e.counts v = false := by
  simp [DeviceUserData.counts, h]

/-- `usr_activate` begins one session at most, and only of this user. -/
theorem sessionsOf_usrActivate (now : ℤ) (u p t ua v : Bytes) (cusr : List DeviceUserData) :
    sessionsOf v (usrActivate now u p t ua cusr).cusr ≤
      sessionsOf v cusr + if v = u then 1 else 0 := by
  rcases usrActivate_cases now u p t ua cusr with ⟨-, hact⟩ | ⟨l, e, l', rfl, -, he, hu, hact⟩ |
    ⟨l, e, l', rfl, -, he, hu, hact⟩
  · rw [hact]
    exact Nat.le_add_right _ _
  · rw [hact]
    simp only [sessionsOf_append, sessionsOf_cons]
    by_cases hv : v = u
    · rw [if_pos hv]
      split <;> omega
    · have hno : ((e.update now p t ua).setActive).counts v = false :=
        counts_of_ne (e := (e.update now p t ua).setActive) (by
          show e.username ≠ v
          exact fun h => hv (h.symm.trans hu))
      rw [hno, if_neg hv]
      simp
  · rw [hact]
    simp only [sessionsOf_append, sessionsOf_cons]
    omega

/-- No session begins where the port is not counted, or where the first entry on it is
active already or another user's. -/
theorem sessionsOf_usrActivate_le {now : ℤ} {u p t ua : Bytes} (v : Bytes)
    {cusr : List DeviceUserData}
    (h : DeviceUserData.countedPort p = false ∨
      ∀ e, firstOn p cusr = some e → e.username = u → e.active = true) :
    sessionsOf v (usrActivate now u p t ua cusr).cusr ≤ sessionsOf v cusr := by
  rcases usrActivate_cases now u p t ua cusr with ⟨-, hact⟩ | ⟨l, e, l', rfl, hnot, he, hu, hact⟩ |
    ⟨l, e, l', rfl, -, he, hu, hact⟩
  · rw [hact]
  · rw [hact]
    simp only [sessionsOf_append, sessionsOf_cons]
    have hsame : ((e.update now p t ua).setActive).counts v = true → e.counts v = true := by
      intro hcounts
      rcases h with hport | hactive
      · have hno : ((e.update now p t ua).setActive).counts v = false :=
          counts_of_port (e := (e.update now p t ua).setActive) hport
        rw [hno] at hcounts
        contradiction
      · have hwas := hactive e (firstOn_append hnot he) hu
        have hcounts : (e.username == v && true && DeviceUserData.countedPort p) = true := hcounts
        rw [DeviceUserData.counts, hwas, he]
        exact hcounts
    by_cases hc : ((e.update now p t ua).setActive).counts v = true
    · rw [if_pos hc, if_pos (hsame hc)]
    · rw [if_neg hc]
      omega
  · rw [hact]
    simp only [sessionsOf_append, sessionsOf_cons]
    omega

/-- Without success no session begins. -/
theorem sessionsOf_usrActivate_false {now : ℤ} {u p t ua : Bytes} (v : Bytes)
    {cusr : List DeviceUserData} (h : (usrActivate now u p t ua cusr).res = false) :
    sessionsOf v (usrActivate now u p t ua cusr).cusr ≤ sessionsOf v cusr := by
  rcases usrActivate_cases now u p t ua cusr with ⟨-, hact⟩ | ⟨l, e, l', -, -, -, -, hact⟩ |
    ⟨l, e, l', rfl, -, -, -, hact⟩
  · rw [hact]
  · rw [hact] at h
    contradiction
  · rw [hact, sessionsOf_append, sessionsOf_append, sessionsOf_cons]
    omega

/-- It is a success exactly when the first entry on the port is the user's. -/
theorem usrActivate_res {now : ℤ} {u p t ua : Bytes} {cusr : List DeviceUserData} :
    (usrActivate now u p t ua cusr).res = true ↔
      ∃ e, firstOn p cusr = some e ∧ e.username = u := by
  rcases usrActivate_cases now u p t ua cusr with
    ⟨hnot, hact⟩ | ⟨l, e, l', rfl, hnot, he, hu, hact⟩ | ⟨l, e, l', rfl, hnot, he, hu, hact⟩
  · rw [hact, firstOn_of_notOn hnot]
    simp
  · rw [hact, firstOn_append hnot he]
    exact iff_of_true rfl ⟨e, rfl, hu⟩
  · rw [hact, firstOn_append hnot he]
    simpa using hu

/-! ## Counting on all devices -/

/-- The entries of a device that is in the list. -/
theorem CoreDevice.cusr_of_mem (c : CoreDevice) {d : Device} (hd : d ∈ c.nas) :
    c.cusr d.hostaddr = d.cusr := by
  have hsome : (c.nas.find? fun x => decide (x.hostaddr = d.hostaddr)).isSome = true := by
    rw [List.find?_isSome]
    exact ⟨d, hd, decide_eq_true rfl⟩
  obtain ⟨x, hx⟩ := Option.isSome_iff_exists.mp hsome
  have haddr := List.find?_some hx
  have hmem := List.mem_of_find?_eq_some hx
  have heq := List.inj_on_of_nodup_map c.nodup hmem hd (of_decide_eq_true haddr)
  rw [CoreDevice.cusr, hx, heq]
  rfl

theorem numsessLoop_set {u n : Bytes} {cusr : List DeviceUserData} {k : ℕ} {nas : List Device}
    (hnodup : (nas.map Device.hostaddr).Nodup)
    (h : ∀ d ∈ nas, d.hostaddr = n → sessionsOf u cusr ≤ sessionsOf u d.cusr + k) :
    CoreDevice.numsessLoop u
        (nas.map fun d => if d.hostaddr = n then { d with cusr := cusr } else d) ≤
      CoreDevice.numsessLoop u nas + k := by
  induction nas with
  | nil => exact Nat.zero_le _
  | cons d nas ih =>
    rw [List.map_cons, List.nodup_cons] at hnodup
    rw [List.map_cons, CoreDevice.numsessLoop, CoreDevice.numsessLoop]
    by_cases hd : d.hostaddr = n
    · -- this is the device, and there is no other one with its address
      rw [if_pos hd]
      have hrest : (nas.map fun d => if d.hostaddr = n then { d with cusr := cusr } else d) =
          nas := by
        conv_rhs => rw [← List.map_id nas]
        apply List.map_congr_left
        intro x hx
        have hne : x.hostaddr ≠ n := by
          rintro rfl
          exact hnodup.1 (hd ▸ List.mem_map_of_mem hx)
        rw [if_neg hne]
        rfl
      have hle := h d List.mem_cons_self hd
      rw [hrest]
      unfold sessionsOf at hle
      show cusr.countP _ + _ ≤ _
      omega
    · rw [if_neg hd]
      have ih := ih hnodup.2 fun x hx => h x (List.mem_cons_of_mem _ hx)
      omega

/-- The sum over the devices, when the sessions on one device go up by `k` at most. -/
theorem CoreDevice.numsess_set (c : CoreDevice) {u n : Bytes} {cusr : List DeviceUserData} {k : ℕ}
    (h : sessionsOf u cusr ≤ sessionsOf u (c.cusr n) + k) :
    (c.set n cusr).numsess u ≤ c.numsess u + k := by
  apply numsessLoop_set c.nodup
  intro d hd hdn
  rw [← c.cusr_of_mem hd, hdn]
  exact h

/-- Nothing is counted for a device that is not known. -/
theorem CoreDevice.numsess_set_of_not_known (c : CoreDevice) {u n : Bytes}
    {cusr : List DeviceUserData} (hk : c.known n = false) :
    (c.set n cusr).numsess u ≤ c.numsess u := by
  refine numsessLoop_set (k := 0) c.nodup ?_
  intro d hd hdn
  rw [CoreDevice.known, List.any_eq_false] at hk
  exact absurd (decide_eq_true hdn) (hk d hd)

theorem CoreDevice.known_set (c : CoreDevice) (n m : Bytes) (cusr : List DeviceUserData) :
    (c.set n cusr).known m = c.known m := by
  show (c.nas.map _).any _ = c.nas.any _
  rw [List.any_map]
  congr 1
  funext d
  by_cases hd : d.hostaddr = n <;> simp [hd]

namespace UserTrack

variable {s : UserTrack} {w : World} {u v n p t ua : Bytes} {now : ℤ}

/-- The active sessions of a user. -/
def numsess (s : UserTrack) (u : Bytes) : ℕ := s.device.numsess u

theorem numsess_sweep {f : List DeviceUserData → Swept} {k : ℕ}
    (h : sessionsOf v (f (s.cusr n)).cusr ≤ sessionsOf v (s.cusr n) + k) :
    (s.sweep n f).2.numsess v ≤ s.numsess v + k := s.device.numsess_set h

theorem numsess_usrDel (s : UserTrack) (n p v : Bytes) :
    (s.usrDel n p).2.numsess v ≤ s.numsess v :=
  numsess_sweep (k := 0) (sessionsOf_usrDel v p (s.cusr n))

theorem numsess_usrActivate (s : UserTrack) (now : ℤ) (n u p t ua v : Bytes) :
    (s.usrActivate now n u p t ua).2.numsess v ≤ s.numsess v + if v = u then 1 else 0 :=
  numsess_sweep (sessionsOf_usrActivate now u p t ua v (s.cusr n))

/-- A new entry is inactive. -/
theorem numsess_usrAdd (s : UserTrack) (now : ℤ) (n u p t : Bytes) (d : UserRecord) (v : Bytes) :
    (s.usrAdd now n u p t d).numsess v ≤ s.numsess v := by
  unfold usrAdd
  split
  · exact Nat.le_refl _
  · refine s.device.numsess_set (k := 0) ?_
    rw [sessionsOf_append, sessionsOf_cons]
    show sessionsOf v (s.cusr n) + _ ≤ sessionsOf v (s.cusr n) + 0
    simp [DeviceUserData.counts, sessionsOf]

/-- **A look-up begins no session.** -/
theorem numsess_get2add (s : UserTrack) (w : World) (u n p t v : Bytes) :
    (s.get2add w u n p t).2.numsess v ≤ s.numsess v := by
  rcases s.get2add_cases w u n p t with ⟨-, hget⟩ | ⟨-, -, hget⟩ | ⟨-, -, hget⟩
  · rw [hget]
    exact numsess_usrAdd ..
  · rw [hget]
    exact Nat.le_refl _
  · rw [hget]
    calc _ ≤ (UserTrack.usrDel { s with dbec := (s.lookUp w u).2 } n p).2.numsess v :=
          numsess_usrAdd ..
      _ ≤ numsess { s with dbec := (s.lookUp w u).2 } v := numsess_usrDel ..
      _ = s.numsess v := rfl

/-- An accounting record can begin a session of this user: the device is known, the port is
counted, and the first entry on it is the user's and inactive, or it is not the user's and
the user can be added. -/
def Activates (s : UserTrack) (w : World) (u c p t ua : Bytes) : Prop :=
  s.device.known c = true ∧ DeviceUserData.countedPort p = true ∧
    (∀ e, firstOn p (s.cusr c) = some e → e.username = u → e.active = false) ∧
    ((∃ e, firstOn p (s.cusr c) = some e ∧ e.username = u) ∨
      Addable (s.addFound w u c p t ua).1)

/-- What is counted behind the look-up in `add`. -/
theorem numsess_addFound (hres : (s.usrActivate w.now n u p t ua).1 = false) (v : Bytes) :
    (s.addFound w u n p t ua).2.numsess v ≤ s.numsess v := by
  calc _ ≤ (s.usrActivate w.now n u p t ua).2.numsess v := numsess_get2add ..
    _ ≤ s.numsess v := numsess_sweep (k := 0) (sessionsOf_usrActivate_false v hres)

/-- **An accounting record begins one session at most**, and only of its user. -/
theorem numsess_add (s : UserTrack) (w : World) (u c p t ua v : Bytes) :
    (s.add w u c p t ua).2.numsess v ≤ s.numsess v + if v = u then 1 else 0 := by
  rcases s.add_cases w u c p t ua with ⟨-, hadd⟩ | ⟨hres, -, hadd⟩ | ⟨hres, -, hadd⟩
  · rw [hadd]
    exact numsess_usrActivate ..
  · rw [hadd]
    have hfound := numsess_addFound hres v
    have hsecond := numsess_usrActivate (s.addFound w u c p t ua).2 w.now c u p t ua v
    exact hsecond.trans (Nat.add_le_add_right hfound _)
  · rw [hadd]
    exact (numsess_addFound hres v).trans (Nat.le_add_right _ _)

theorem known_get2add (s : UserTrack) (w : World) (u n p t m : Bytes) :
    (s.get2add w u n p t).2.device.known m = s.device.known m := by
  have hadd : ∀ (s : UserTrack) (d : UserRecord),
      (s.usrAdd w.now n u p t d).device.known m = s.device.known m := by
    intro s d
    unfold usrAdd
    split
    · rfl
    · exact s.device.known_set n m _
  rcases s.get2add_cases w u n p t with ⟨-, hget⟩ | ⟨-, -, hget⟩ | ⟨-, -, hget⟩
  · rw [hget]
    exact hadd ..
  · rw [hget]
  · rw [hget]
    exact (hadd ..).trans (s.device.known_set n m _)

/-- An accounting record that cannot begin a session begins none. -/
theorem numsess_add_le {c : Bytes} (h : ¬ s.Activates w u c p t ua) (v : Bytes) :
    (s.add w u c p t ua).2.numsess v ≤ s.numsess v := by
  -- the record on an unknown device or on another kind of port
  have helsewhere : (s.device.known c = false ∨ DeviceUserData.countedPort p = false) →
      (s.add w u c p t ua).2.numsess v ≤ s.numsess v := by
    intro hout
    have hact : ∀ s' : UserTrack, s'.device.known c = s.device.known c →
        (s'.usrActivate w.now c u p t ua).2.numsess v ≤ s'.numsess v := by
      intro s' hk
      rcases hout with hk' | hport
      · exact s'.device.numsess_set_of_not_known (hk.trans hk')
      · exact numsess_sweep (k := 0) (sessionsOf_usrActivate_le v (.inl hport))
    rcases s.add_cases w u c p t ua with ⟨-, hadd⟩ | ⟨hres, -, hadd⟩ | ⟨hres, -, hadd⟩
    · rw [hadd]
      exact hact s rfl
    · rw [hadd]
      have hknown : (s.addFound w u c p t ua).2.device.known c = s.device.known c :=
        (known_get2add ..).trans (s.device.known_set c c _)
      exact (hact _ hknown).trans (numsess_addFound hres v)
    · rw [hadd]
      exact numsess_addFound hres v
  by_cases hk : s.device.known c = true
  · by_cases hport : DeviceUserData.countedPort p = true
    · have hrest : (∀ e, firstOn p (s.cusr c) = some e → e.username = u → e.active = false) →
          ¬ ((∃ e, firstOn p (s.cusr c) = some e ∧ e.username = u) ∨
            Addable (s.addFound w u c p t ua).1) := fun hinactive hb =>
        h ⟨hk, hport, hinactive, hb⟩
      rcases s.add_cases w u c p t ua with ⟨hres, hadd⟩ | ⟨hres, hable, hadd⟩ | ⟨hres, -, hadd⟩
      · -- the entry is the user's, so it was active before
        rw [hadd]
        refine numsess_sweep (k := 0) (sessionsOf_usrActivate_le v (.inr ?_))
        intro e he heu
        by_contra hinactive
        refine hrest ?_ (.inl (usrActivate_res.mp hres))
        intro e' he' _
        rw [he] at he'
        obtain rfl := Option.some.inj he'
        simpa using hinactive
      · by_cases hmine : ∃ e, firstOn p (s.cusr c) = some e ∧ e.username = u
        · have hyes : (s.usrActivate w.now c u p t ua).1 = true := usrActivate_res.mpr hmine
          rw [hyes] at hres
          contradiction
        · have hnone : ∀ e, firstOn p (s.cusr c) = some e → e.username = u → e.active = false :=
            fun e he heu => absurd ⟨e, he, heu⟩ hmine
          exact absurd (.inr hable) (hrest hnone)
      · rw [hadd]
        exact numsess_addFound hres v
    · exact helsewhere (.inr (by simpa using hport))
  · exact helsewhere (.inl (by simpa using hk))

theorem numsess_expireLoop (nas : List Device) (s : UserTrack) (v : Bytes) :
    (expireLoop now nas s).numsess v ≤ s.numsess v := by
  induction nas generalizing s with
  | nil => exact Nat.le_refl _
  | cons d nas ih =>
    refine (ih _).trans (numsess_sweep (k := 0) ?_)
    exact List.Sublist.countP_le List.filter_sublist

theorem numsess_device (s : UserTrack) (n v : Bytes) :
    CoreDevice.numsess (s.device.add n) v = s.numsess v := by
  have happend : ∀ nas, CoreDevice.numsessLoop v (nas ++ [⟨n, []⟩]) =
      CoreDevice.numsessLoop v nas := by
    intro nas
    induction nas with
    | nil => rfl
    | cons d nas ih => rw [List.cons_append, CoreDevice.numsessLoop, ih, CoreDevice.numsessLoop]
  show CoreDevice.numsessLoop v (if _ then _ else _) = CoreDevice.numsessLoop v _
  split
  · rfl
  · exact happend _

/-- **Only an accounting record of the user begins a session.** -/
theorem numsess_run (md5 : Bytes → Digest) (s : UserTrack) (w : World) {op : TrackOp}
    (h : ∀ c p t ua, op = .add u c p t ua → ¬ s.Activates w u c p t ua) :
    (s.run md5 w op).2.numsess u ≤ s.numsess u := by
  cases op with
  | authenticate call => exact numsess_get2add ..
  | get2add v nas p t => exact numsess_get2add ..
  | add v c p t ua =>
    by_cases hv : v = u
    · subst hv
      exact numsess_add_le (h c p t ua rfl) v
    · have hle := numsess_add s w v c p t ua u
      rw [if_neg (Ne.symm hv)] at hle
      exact hle
  | del v c p => exact numsess_usrDel ..
  | expire => exact numsess_expireLoop ..
  | down n => exact numsess_sweep (k := 0) (Nat.zero_le _)
  | device n => exact (numsess_device s n u).le
  | assigned v => exact Nat.le_refl _
  | destroyed v => exact Nat.le_refl _

end UserTrack

/-! ## Logins and their records -/

/-- A step of a recorded run. -/
abbrev TrackStep := (World × TrackOp) × Bool

/-- The user has been let in on this port. -/
def Login (u c p : Bytes) (x : TrackStep) : Prop :=
  x.2 = true ∧ ∃ call, x.1.2 = .authenticate call ∧ call.user = u ∧ call.nas = c ∧ call.port = p

/-- An accounting record of the user, START or UPDATE, or one of another server. -/
def IsRecord (u : Bytes) (x : TrackStep) : Prop := ∃ c p t ua, x.1.2 = .add u c p t ua

/-- The user has been let in on this port, and no accounting record of the user has come
since. -/
def FreshLogin (u c p : Bytes) (pre : List TrackStep) : Prop :=
  ∃ before x since, pre = before ++ x :: since ∧ Login u c p x ∧ ∀ y ∈ since, ¬ IsRecord u y

theorem freshLogin_concat {u c p : Bytes} {pre : List TrackStep} {x : TrackStep}
    (h : FreshLogin u c p (pre ++ [x])) :
    Login u c p x ∨ FreshLogin u c p pre ∧ ¬ IsRecord u x := by
  obtain ⟨before, y, since, hsplit, hlogin, hsince⟩ := h
  rcases List.eq_nil_or_concat since with rfl | ⟨since', z, rfl⟩
  · obtain ⟨-, hxy⟩ := List.append_inj' hsplit rfl
    obtain rfl : x = y := by simpa using hxy
    exact .inl hlogin
  · rw [List.concat_eq_append] at hsplit hsince
    have hsplit' : pre ++ [x] = (before ++ y :: since') ++ [z] := by
      rw [hsplit, List.append_assoc, List.cons_append]
    obtain ⟨hpre, hxz⟩ := List.append_inj' hsplit' rfl
    obtain rfl : x = z := by simpa using hxz
    refine .inr ⟨⟨before, y, since', hpre, hlogin, ?_⟩, hsince x (by simp)⟩
    intro y' hy'
    exact hsince y' (List.mem_append_left _ hy')

/-- The record found for a login of the user allows `n` sessions. -/
def MaxsessIs (u : Bytes) (n : ℤ) (s : UserTrack) (i : World × TrackOp) : Prop :=
  match i.2 with
  | .authenticate call => call.user = u →
    (s.get2add i.1 call.user call.nas call.port call.remAddr).1.data.result = true →
      (s.get2add i.1 call.user call.nas call.port call.remAddr).1.data.maxsess = n
  | _ => True

/-- The condition: an accounting record that can begin a session of the user finds fewer
than `n` sessions, or it is the first one behind the login on its port. -/
def HasRoom (u : Bytes) (n : ℤ) (pre : List TrackStep) (s : UserTrack) (i : World × TrackOp) :
    Prop :=
  match i.2 with
  | .add v c p t ua => v = u → s.Activates i.1 u c p t ua →
    (s.numsess u : ℤ) < n ∨ FreshLogin u c p pre
  | _ => True

/-! ## The limit -/

/-- The invariant: the limit is kept, and a fresh login leaves room for its session. -/
def WithinLimit (u : Bytes) (n : ℤ) (pre : List TrackStep) (s : UserTrack) : Prop :=
  (s.numsess u : ℤ) ≤ n ∧ ∀ c p, FreshLogin u c p pre → (s.numsess u : ℤ) < n

section

variable {md5 : Bytes → Digest} {u : Bytes} {n : ℤ} {pre : List TrackStep} {s : UserTrack}
  {i : World × TrackOp}

/-- A login that is let in has found room. -/
theorem numsess_login (hn : 0 < n) (hmax : MaxsessIs u n s i) {c p : Bytes}
    (hlogin : Login u c p (i, (s.run md5 i.1 i.2).1)) :
    ((s.run md5 i.1 i.2).2.numsess u : ℤ) < n := by
  obtain ⟨w, op⟩ := i
  obtain ⟨haccepted, call, rfl, rfl, -, -⟩ := hlogin
  have htrue : dbAuthentication md5 (s.env w call) call = true := haccepted
  rw [← dbAuthentication_withRecord, dbAuthentication_eq_true_iff] at htrue
  obtain ⟨hmay, -, -⟩ := htrue
  have hmaxsess : ((s.env w call).get2add call.user call.nas call.port call.remAddr).maxsess = n :=
    hmax rfl hmay.found
  show ((s.get2add w call.user call.nas call.port call.remAddr).2.numsess call.user : ℤ) < n
  rcases hmay.sessionLeft with hzero | hless
  · rw [hmaxsess] at hzero
    omega
  · rw [hmaxsess] at hless
    exact hless

/-- **A step under the condition keeps the invariant.** -/
theorem WithinLimit.step (hn : 0 < n) (inv : WithinLimit u n pre s) (hmax : MaxsessIs u n s i)
    (hroom : HasRoom u n pre s i) :
    WithinLimit u n (pre ++ [(i, (s.run md5 i.1 i.2).1)]) (s.run md5 i.1 i.2).2 := by
  obtain ⟨hle, hfresh⟩ := inv
  by_cases hact : ∃ c p t ua, i.2 = .add u c p t ua ∧ s.Activates i.1 u c p t ua
  · -- a session can begin: there was room for one
    obtain ⟨c, p, t, ua, hop, hactivates⟩ := hact
    have hless : (s.numsess u : ℤ) < n := by
      unfold HasRoom at hroom
      rw [hop] at hroom
      rcases hroom rfl hactivates with hless | hlogin
      · exact hless
      · exact hfresh c p hlogin
    have hone : (s.run md5 i.1 i.2).2.numsess u ≤ s.numsess u + 1 := by
      rw [hop]
      have hadd := s.numsess_add i.1 u c p t ua u
      rw [if_pos rfl] at hadd
      exact hadd
    refine ⟨by omega, fun c' p' hlogin => ?_⟩
    rcases freshLogin_concat hlogin with ⟨-, call, hcall, -⟩ | ⟨-, hno⟩
    · rw [hop] at hcall
      contradiction
    · exact absurd ⟨c, p, t, ua, hop⟩ hno
  · have hsame : (s.run md5 i.1 i.2).2.numsess u ≤ s.numsess u := by
      apply s.numsess_run md5 i.1
      intro c p t ua hop hactivates
      exact hact ⟨c, p, t, ua, hop, hactivates⟩
    refine ⟨by omega, fun c p hlogin => ?_⟩
    rcases freshLogin_concat hlogin with hlogin | ⟨hlogin, -⟩
    · exact numsess_login hn hmax hlogin
    · have hless := hfresh c p hlogin
      omega

end

/-- **The session limit.**  In every run of the tracking system where the records of the
user allow `n` sessions: when every accounting record that can begin a session of the user
finds room, or is the first behind the login on its port, then the active sessions of the
user never exceed `n`. -/
theorem track_session_limit (md5 : Bytes → Digest) (u : Bytes) (n : ℤ) (hn : 0 < n)
    (h : List TrackStep)
    (hmax : (tracking md5).EveryStep (fun _ s i => MaxsessIs u n s i) h)
    (hroom : (tracking md5).EveryStep (HasRoom u n) h) :
    (tracking md5).Always (fun _ s => (s.numsess u : ℤ) ≤ n) h := by
  have hboth : (tracking md5).EveryStep
      (fun pre s i => MaxsessIs u n s i ∧ HasRoom u n pre s i) h := by
    intro pre x post s hh hr
    exact ⟨hmax pre x post s hh hr, hroom pre x post s hh hr⟩
  have hwithin : (tracking md5).Always (WithinLimit u n) h := by
    have hstart : WithinLimit u n [] (tracking md5).init := by
      refine ⟨Int.le_of_lt hn, ?_⟩
      rintro c p ⟨before, x, since, hsplit, -⟩
      simp at hsplit
    refine hboth.always hstart ?_
    rintro pre s i s' e _ inv ⟨hmax, hroom⟩ hstep
    obtain ⟨rfl, rfl⟩ := Prod.mk.inj (Except.ok.inj hstep)
    exact inv.step hn hmax hroom
  intro pre post s hh hr
  exact (hwithin pre post s hh hr).1

/-! ## Two logins before the first START -/

/-- An accounting record of the user comes somewhere behind a login on its port. -/
def Preceded (u : Bytes) (pre : List TrackStep) (i : World × TrackOp) : Prop :=
  match i.2 with
  | .add v c p _ _ => v = u → ∃ x ∈ pre, Login u c p x
  | _ => True

/-- A server where every user may have one session. -/
def singleWorld : World := { openWorld with db := fun _ => { openUser [] [] [] with maxsess := 1 } }

/-- `ann` is authenticated on a port. -/
def annLogin (p : Bytes) : World × TrackOp :=
  (singleWorld, .authenticate ⟨str "ann", nullPassword, [], str "10.0.0.1", p, []⟩)

/-- `ann` starts on a port. -/
def annStart (p : Bytes) : World × TrackOp :=
  (singleWorld, .add (str "ann") (str "10.0.0.1") p [] unknownIp)

/-- One session of `ann`. -/
def oneLogin : List (World × TrackOp) :=
  [(singleWorld, .device (str "10.0.0.1")), annLogin (str "As1"), annStart (str "As1")]

/-- Two sessions of `ann` that begin together. -/
def twoLogins : List (World × TrackOp) :=
  [(singleWorld, .device (str "10.0.0.1")), annLogin (str "As1"), annLogin (str "As2"),
    annStart (str "As1"), annStart (str "As2")]

/-- The one session keeps the limit of one. -/
theorem track_session_limit_ann :
    (tracking fun _ => constDigest 0).Always (fun _ s => (s.numsess (str "ann") : ℤ) ≤ 1)
      ((tracking fun _ => constDigest 0).history oneLogin) := by
  refine track_session_limit _ _ 1 (by decide) _ (Machine.everyStep_history ?_)
    (Machine.everyStep_history ?_)
  · exact And.intro trivial (And.intro (fun _ _ => rfl) (And.intro trivial trivial))
  · exact And.intro trivial (And.intro trivial (And.intro (fun _ _ => .inl (by decide)) trivial))

/-- Two logins are let in before the first START, and both sessions begin. -/
theorem track_limit_exceeded :
    ¬ ∀ (md5 : Bytes → Digest) (u : Bytes) (n : ℤ) (as : List (World × TrackOp)), 0 < n →
      (tracking md5).EveryStep (fun _ s i => MaxsessIs u n s i) ((tracking md5).history as) →
        (tracking md5).EveryStep (fun pre _ i => Preceded u pre i) ((tracking md5).history as) →
          (tracking md5).Always (fun _ s => (s.numsess u : ℤ) ≤ n) ((tracking md5).history as) := by
  intro hclaim
  have hlimit := hclaim (fun _ => constDigest 0) (str "ann") 1 twoLogins (by decide)
    (Machine.everyStep_history ?_) (Machine.everyStep_history ?_) _ [] _ (List.append_nil _).symm
    (Machine.reaches_history _ twoLogins)
  · exact absurd hlimit (by decide)
  · exact And.intro trivial (And.intro (fun _ _ => rfl) (And.intro (fun _ _ => rfl)
      (And.intro trivial (And.intro trivial trivial))))
  · -- each START comes behind the login on its port
    have hlogin : ∀ p, Login (str "ann") (str "10.0.0.1") p (annLogin p, true) := fun p =>
      ⟨rfl, _, rfl, rfl, rfl, rfl⟩
    refine And.intro trivial (And.intro trivial (And.intro trivial (And.intro ?_
      (And.intro ?_ trivial))))
    · intro _
      exact ⟨_, List.mem_cons_of_mem _ List.mem_cons_self, hlogin (str "As1")⟩
    · intro _
      exact ⟨_, List.mem_cons_of_mem _ (List.mem_cons_of_mem _ List.mem_cons_self),
        hlogin (str "As2")⟩

end Tacppd
