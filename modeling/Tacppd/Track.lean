/-
# The user tracking system

`UserTrack.cc` over `CoreDevice.cc`: each device has a list of the users on its ports,
an entry is made inactive by an authentication or authorization, becomes active by
accounting or by a packet of another server, and is deleted by STOP.  Records are taken
from the billing store, from the cache of database answers, or from the database.

The loops over the devices stop at the device with the address asked for; no two
devices have the same address, so there is one at most.
-/
import Tacppd.Aaa
import Tacppd.Lib.Machine
import Tacppd.UserData

namespace Tacppd

/-! ## Entries -/

/-- `UNKNOWN_IP`. -/
def unknownIp : Bytes := str "0.0.0.0"

/-- One tracked user, class `DeviceUser_data`.  An address is kept as its text. -/
structure DeviceUserData where
  username : Bytes
  port : Bytes
  phone : Bytes
  active : Bool
  lastdatatime : ℤ
  nasaddr : Bytes
  useraddr : Bytes
  deriving DecidableEq, Repr

namespace DeviceUserData

/-- `update(p, t, ua)`. -/
def update (e : DeviceUserData) (now : ℤ) (p t ua : Bytes) : DeviceUserData :=
  { e with
    port := p
    phone := if e.phone.length < t.length then t else e.phone
    useraddr := if ua ≠ unknownIp then ua else e.useraddr
    lastdatatime := now }

def setActive (e : DeviceUserData) : DeviceUserData := { e with active := true }

/-- An inactive entry expires after 61 seconds. -/
def isExpired (e : DeviceUserData) (now : ℤ) : Bool :=
  if e.active then false else decide (61 < now - e.lastdatatime)

/-- The port is one of those that `numsess` counts. -/
def countedPort (p : Bytes) : Bool := scompNum p (str "As") 2 || scompNum p (str "Se") 2

/-- The entry counts as a session of this user. -/
def counts (u : Bytes) (e : DeviceUserData) : Bool :=
  e.username == u && e.active && countedPort e.port

end DeviceUserData

/-! ## One device -/

/-- What a loop over the list `cusr_` of a device leaves: its return value, the list, and
the entries it has deleted. -/
structure Swept where
  res : Bool
  cusr : List DeviceUserData
  gone : List DeviceUserData
  deriving DecidableEq, Repr

/-- The loop has passed an entry. -/
def Swept.pass (e : DeviceUserData) (w : Swept) : Swept := { w with cusr := e :: w.cusr }

/-- `usr_del(p)`: delete the first entry on a port. -/
def usrDel (p : Bytes) : List DeviceUserData → Swept
  | [] => ⟨false, [], []⟩
  | e :: rest => if e.port = p then ⟨true, rest, [e]⟩ else (usrDel p rest).pass e

/-- `usr_activate`: the first entry on the port is made active when it is this user's,
and deleted when it is another user's. -/
def usrActivate (now : ℤ) (u p t ua : Bytes) : List DeviceUserData → Swept
  | [] => ⟨false, [], []⟩
  | e :: rest =>
    if e.port = p then
      if e.username = u then ⟨true, (e.update now p t ua).setActive :: rest, []⟩
      else ⟨false, rest, [e]⟩
    else (usrActivate now u p t ua rest).pass e

/-- There is an entry of the user on the port. -/
def isPresent (u p : Bytes) (cusr : List DeviceUserData) : Bool :=
  cusr.any fun e => decide (e.port = p) && decide (e.username = u)

/-- `usr_expire`. -/
def usrExpire (now : ℤ) (cusr : List DeviceUserData) : Swept :=
  ⟨true, cusr.filter (!·.isExpired now), cusr.filter (·.isExpired now)⟩

/-- No entry is on the port. -/
def NotOn (p : Bytes) (cusr : List DeviceUserData) : Prop := ∀ e ∈ cusr, e.port ≠ p

theorem notOn_cons {p : Bytes} {e : DeviceUserData} {cusr : List DeviceUserData} :
    NotOn p (e :: cusr) ↔ e.port ≠ p ∧ NotOn p cusr := List.forall_mem_cons

/-- The first entry on a port. -/
def firstOn (p : Bytes) (cusr : List DeviceUserData) : Option DeviceUserData :=
  cusr.find? fun e => decide (e.port = p)

theorem firstOn_of_notOn {p : Bytes} {l : List DeviceUserData} (hnot : NotOn p l) :
    firstOn p l = none := by
  rw [firstOn, List.find?_eq_none]
  intro x hx hxp
  exact hnot x hx (of_decide_eq_true hxp)

theorem firstOn_append {p : Bytes} {l l' : List DeviceUserData} {e : DeviceUserData}
    (hnot : NotOn p l) (he : e.port = p) : firstOn p (l ++ e :: l') = some e := by
  have hnone := firstOn_of_notOn hnot
  rw [firstOn] at hnone ⊢
  rw [List.find?_append, hnone, Option.none_or, List.find?_cons, decide_eq_true he]

/-- **What `usr_del` does**: nothing when nobody is on the port, else it takes the first
entry out. -/
theorem usrDel_cases (p : Bytes) (cusr : List DeviceUserData) :
    (NotOn p cusr ∧ usrDel p cusr = ⟨false, cusr, []⟩) ∨
      ∃ l e l', cusr = l ++ e :: l' ∧ NotOn p l ∧ e.port = p ∧
        usrDel p cusr = ⟨true, l ++ l', [e]⟩ := by
  induction cusr with
  | nil => exact .inl ⟨by simp [NotOn], rfl⟩
  | cons x cusr ih =>
    rw [usrDel]
    by_cases hx : x.port = p
    · rw [if_pos hx]
      exact .inr ⟨[], x, cusr, rfl, by simp [NotOn], hx, rfl⟩
    · rw [if_neg hx]
      rcases ih with ⟨hnot, hdel⟩ | ⟨l, e, l', rfl, hnot, he, hdel⟩
      · exact .inl ⟨notOn_cons.mpr ⟨hx, hnot⟩, by rw [hdel]; rfl⟩
      · exact .inr ⟨x :: l, e, l', rfl, notOn_cons.mpr ⟨hx, hnot⟩, he, by rw [hdel]; rfl⟩

/-- **What `usr_activate` does**: nothing when nobody is on the port; the first entry on
it is updated and made active when it is this user's, and taken out when it is not. -/
theorem usrActivate_cases (now : ℤ) (u p t ua : Bytes) (cusr : List DeviceUserData) :
    (NotOn p cusr ∧ usrActivate now u p t ua cusr = ⟨false, cusr, []⟩) ∨
      (∃ l e l', cusr = l ++ e :: l' ∧ NotOn p l ∧ e.port = p ∧ e.username = u ∧
        usrActivate now u p t ua cusr =
          ⟨true, l ++ (e.update now p t ua).setActive :: l', []⟩) ∨
      ∃ l e l', cusr = l ++ e :: l' ∧ NotOn p l ∧ e.port = p ∧ e.username ≠ u ∧
        usrActivate now u p t ua cusr = ⟨false, l ++ l', [e]⟩ := by
  induction cusr with
  | nil => exact .inl ⟨by simp [NotOn], rfl⟩
  | cons x cusr ih =>
    rw [usrActivate]
    by_cases hx : x.port = p
    · rw [if_pos hx]
      by_cases hu : x.username = u
      · rw [if_pos hu]
        exact .inr (.inl ⟨[], x, cusr, rfl, by simp [NotOn], hx, hu, rfl⟩)
      · rw [if_neg hu]
        exact .inr (.inr ⟨[], x, cusr, rfl, by simp [NotOn], hx, hu, rfl⟩)
    · rw [if_neg hx]
      rcases ih with ⟨hnot, hact⟩ | ⟨l, e, l', rfl, hnot, he, hu, hact⟩ |
        ⟨l, e, l', rfl, hnot, he, hu, hact⟩
      · exact .inl ⟨notOn_cons.mpr ⟨hx, hnot⟩, by rw [hact]; rfl⟩
      · exact .inr (.inl ⟨x :: l, e, l', rfl, notOn_cons.mpr ⟨hx, hnot⟩, he, hu,
          by rw [hact]; rfl⟩)
      · exact .inr (.inr ⟨x :: l, e, l', rfl, notOn_cons.mpr ⟨hx, hnot⟩, he, hu,
          by rw [hact]; rfl⟩)

/-! ## All devices -/

/-- The part of class `Device_data` with the users. -/
structure Device where
  hostaddr : Bytes
  cusr : List DeviceUserData
  deriving DecidableEq, Repr

/-- The list `nas` of class `CoreDevice`; `add` takes no address twice. -/
structure CoreDevice where
  nas : List Device
  nodup : (nas.map Device.hostaddr).Nodup

namespace CoreDevice

def empty : CoreDevice := ⟨[], List.nodup_nil⟩

/-- The address is that of a device. -/
def known (c : CoreDevice) (n : Bytes) : Bool := c.nas.any fun d => decide (d.hostaddr = n)

/-- The users on a device, none when the device is not known. -/
def cusr (c : CoreDevice) (n : Bytes) : List DeviceUserData :=
  ((c.nas.find? fun d => decide (d.hostaddr = n)).map Device.cusr).getD []

/-- Put a list of users in the place of a device's. -/
def set (c : CoreDevice) (n : Bytes) (cusr : List DeviceUserData) : CoreDevice where
  nas := c.nas.map fun d => if d.hostaddr = n then { d with cusr := cusr } else d
  nodup := by
    rw [List.map_map]
    have hsame : (Device.hostaddr ∘ fun d : Device => if d.hostaddr = n then
        { d with cusr := cusr } else d) = Device.hostaddr := by
      funext d
      by_cases hd : d.hostaddr = n <;> simp [hd]
    rw [hsame]
    exact c.nodup

/-- `CoreDevice::add`. -/
def add (c : CoreDevice) (n : Bytes) : CoreDevice where
  nas := if c.known n then c.nas else c.nas ++ [⟨n, []⟩]
  nodup := by
    split
    · exact c.nodup
    · next hnew =>
      rw [List.map_append, List.nodup_append]
      refine ⟨c.nodup, List.nodup_singleton _, ?_⟩
      rintro a ha _ hn rfl
      obtain ⟨d, hd, hda⟩ := List.mem_map.mp ha
      obtain rfl := List.mem_singleton.mp hn
      apply hnew
      simp only [known, List.any_eq_true]
      exact ⟨d, hd, decide_eq_true hda⟩

variable (c : CoreDevice) (n m : Bytes)

/-- The search of a device in a list. -/
theorem find?_map_set (cusr : List DeviceUserData) (nas : List Device) :
    (nas.map fun d => if d.hostaddr = n then { d with cusr := cusr } else d).find?
        (fun d => decide (d.hostaddr = m)) =
      (nas.find? fun d => decide (d.hostaddr = m)).map fun d =>
        if m = n then { d with cusr := cusr } else d := by
  induction nas with
  | nil => rfl
  | cons d nas ih =>
    rw [List.map_cons, List.find?_cons, List.find?_cons]
    have hsame : (if d.hostaddr = n then { d with cusr := cusr } else d).hostaddr =
        d.hostaddr := by
      by_cases hd : d.hostaddr = n <;> simp [hd]
    rw [hsame]
    by_cases hm : d.hostaddr = m
    · rw [decide_eq_true hm, Option.map_some, ← hm]
    · rw [decide_eq_false hm]
      exact ih

theorem cusr_of_not_known (h : c.known n = false) : c.cusr n = [] := by
  have hnone : c.nas.find? (fun d => decide (d.hostaddr = n)) = none := by
    rw [List.find?_eq_none]
    intro d hd hdn
    rw [known, List.any_eq_false] at h
    exact h d hd hdn
  rw [cusr, hnone]
  rfl

/-- The users after a list has been put in the place of a device's. -/
theorem cusr_set (cusr : List DeviceUserData) :
    (c.set n cusr).cusr m = if m = n ∧ c.known n = true then cusr else c.cusr m := by
  rw [CoreDevice.cusr, set, find?_map_set, Option.map_map]
  by_cases hm : m = n
  · subst hm
    cases hk : c.known m with
    | false =>
      have hnone := c.cusr_of_not_known m hk
      rw [if_neg (by simp), hnone]
      have hfind : c.nas.find? (fun d => decide (d.hostaddr = m)) = none := by
        rw [List.find?_eq_none]
        intro d hd hdn
        rw [known, List.any_eq_false] at hk
        exact hk d hd hdn
      rw [hfind]
      rfl
    | true =>
      rw [if_pos ⟨rfl, rfl⟩]
      rw [known, List.any_eq_true] at hk
      obtain ⟨d, hd, hdm⟩ := hk
      have hsome : (c.nas.find? fun d => decide (d.hostaddr = m)).isSome = true := by
        rw [List.find?_isSome]
        exact ⟨d, hd, hdm⟩
      obtain ⟨d', hd'⟩ := Option.isSome_iff_exists.mp hsome
      rw [hd', Option.map_some, Option.getD_some, Function.comp_apply, if_pos rfl]
  · rw [if_neg (fun h => hm h.1), CoreDevice.cusr]
    congr 2
    funext d
    rw [Function.comp_apply, if_neg hm]

/-- A new device has no users. -/
theorem cusr_add : (c.add n).cusr m = c.cusr m := by
  unfold CoreDevice.cusr add
  simp only
  cases hk : c.known n with
  | true => rfl
  | false =>
    rw [if_neg Bool.false_ne_true, List.find?_append]
    cases hfind : c.nas.find? (fun d => decide (d.hostaddr = m)) with
    | some d => rfl
    | none =>
      rw [Option.none_or, List.find?_singleton]
      split <;> rfl

/-- The sum that `CoreDevice::numsess` makes over the devices. -/
def numsessLoop (u : Bytes) : List Device → ℕ
  | [] => 0
  | d :: nas => d.cusr.countP (DeviceUserData.counts u) + numsessLoop u nas

/-- `CoreDevice::numsess`: the active sessions of a user on all devices. -/
def numsess (c : CoreDevice) (u : Bytes) : ℕ := numsessLoop u c.nas

end CoreDevice

/-! ## The tracking system -/

/-- An answer of the database that is kept for a while, class `dbc_entry`. -/
structure DbcEntry where
  entry : UserRecord
  date : ℤ

/-- The state of the tracking system. -/
structure UserTrack where
  device : CoreDevice
  billing : CoreBilling
  dbec : List DbcEntry

/-- The rest of the server while one operation is done: the clock, the database, and what
the access rows are compared with. -/
structure World where
  now : ℤ
  /-- The rows for a user name that is not empty. -/
  db : Bytes → DbUser
  regexec : Bytes → Bytes → Bool
  checkTime : Bytes → Bool

/-- `TacDb::get`: a record that is found carries the name it was asked for. -/
def World.get (w : World) (u : Bytes) : UserRecord :=
  if u = [] then UserRecord.new
  else if (w.db u).result then ⟨u, w.db u⟩ else ⟨[], w.db u⟩

/-- `dbc_man::present`: entries older than 31 seconds are dropped on the way to the first
one with this name. -/
def dbcPresent (now : ℤ) (u : Bytes) : List DbcEntry → Bool × List DbcEntry
  | [] => (false, [])
  | x :: rest =>
    if 31 < now - x.date then dbcPresent now u rest
    else if x.entry.username = u then (true, x :: rest)
    else
      let r := dbcPresent now u rest
      (r.1, x :: r.2)

/-- `dbc_man::get`. -/
def dbcGet (u : Bytes) (dbec : List DbcEntry) : UserRecord :=
  ((dbec.find? fun x => decide (x.entry.username = u)).map DbcEntry.entry).getD UserRecord.new

namespace UserTrack

def empty : UserTrack := ⟨CoreDevice.empty, CoreBilling.empty, []⟩

/-- The users on a device. -/
def cusr (s : UserTrack) (n : Bytes) : List DeviceUserData := s.device.cusr n

/-- Run a loop over the users of a device; the destructors of the deleted entries call
`delUd`. -/
def sweep (s : UserTrack) (n : Bytes) (f : List DeviceUserData → Swept) : Bool × UserTrack :=
  let w := f (s.cusr n)
  (w.res,
    { s with
      device := s.device.set n w.cusr
      billing := w.gone.foldl (fun b e => b.delUd e.username) s.billing })

/-- The users after a loop that leaves an empty list alone. -/
theorem sweep_cusr (s : UserTrack) (n : Bytes) {f : List DeviceUserData → Swept}
    (hf : (f []).cusr = []) (m : Bytes) :
    (s.sweep n f).2.cusr m = if m = n then (f (s.cusr n)).cusr else s.cusr m := by
  show (s.device.set n (f (s.cusr n)).cusr).cusr m = _
  rw [CoreDevice.cusr_set]
  by_cases hm : m = n
  · subst hm
    rw [if_pos rfl]
    cases hk : s.device.known m with
    | true => rw [if_pos ⟨rfl, rfl⟩]
    | false =>
      have hnone : s.cusr m = [] := s.device.cusr_of_not_known m hk
      rw [if_neg (by simp), hnone, hf]
      exact hnone
  · rw [if_neg hm, if_neg (fun h => hm h.1)]
    rfl

/-- `CoreDevice::usr_del(n, p)`. -/
def usrDel (s : UserTrack) (n p : Bytes) : Bool × UserTrack := s.sweep n (Tacppd.usrDel p)

/-- `CoreDevice::usr_activate`. -/
def usrActivate (s : UserTrack) (now : ℤ) (n u p t ua : Bytes) : Bool × UserTrack :=
  s.sweep n (Tacppd.usrActivate now u p t ua)

/-- `CoreDevice::usr_add`: a new inactive entry, whose constructor calls `addUd`. -/
def usrAdd (s : UserTrack) (now : ℤ) (n u p t : Bytes) (d : UserRecord) : UserTrack :=
  if !s.device.known n || isPresent u p (s.cusr n) then s
  else
    let e : DeviceUserData := ⟨u, p, t, false, now, n, unknownIp⟩
    { s with device := s.device.set n (s.cusr n ++ [e]), billing := s.billing.addUd d }

/-- The users after `usr_add`. -/
theorem usrAdd_cusr (s : UserTrack) (now : ℤ) (n u p t : Bytes) (d : UserRecord) (m : Bytes) :
    (s.usrAdd now n u p t d).cusr m =
      if m = n ∧ s.device.known n = true ∧ isPresent u p (s.cusr n) = false then
        s.cusr n ++ [⟨u, p, t, false, now, n, unknownIp⟩]
      else s.cusr m := by
  unfold usrAdd
  cases hk : s.device.known n with
  | false => simp
  | true =>
    cases hp : isPresent u p (s.cusr n) with
    | true => simp
    | false =>
      rw [if_neg (by simp)]
      show (s.device.set n _).cusr m = _
      rw [CoreDevice.cusr_set, hk]
      by_cases hm : m = n <;> simp [hm, cusr]

/-- What `get2add` finds for a user who has no record in the billing store, with the
cache after it. -/
def lookUp (s : UserTrack) (w : World) (u : Bytes) : UserRecord × List DbcEntry :=
  let present := dbcPresent w.now u s.dbec
  if present.1 then (dbcGet u present.2, present.2)
  else (w.get u, present.2 ++ [⟨w.get u, w.now⟩])

/-- `UserTrack::get2add`. -/
def get2add (s : UserTrack) (w : World) (u nas p t : Bytes) : UserRecord × UserTrack :=
  let ret := s.billing.getUd u
  -- a user who is tracked somewhere: whoever is on this port stays there
  if ret.data.result then (ret, s.usrAdd w.now nas u p t ret)
  else
    let found := s.lookUp w u
    let s := { s with dbec := found.2 }
    if !found.1.data.result then (found.1, s)
    else (found.1, (s.usrDel nas p).2.usrAdd w.now nas u p t found.1)

/-- **What `get2add` does**: it adds an entry for a user who has a record in the billing
store; else it leaves all users alone when there is no record, or puts the user in the
place of whoever is on the port. -/
theorem get2add_cases (s : UserTrack) (w : World) (u nas p t : Bytes) :
    ((s.billing.getUd u).data.result = true ∧
      s.get2add w u nas p t =
        (s.billing.getUd u, s.usrAdd w.now nas u p t (s.billing.getUd u))) ∨
    ((s.billing.getUd u).data.result = false ∧ (s.lookUp w u).1.data.result = false ∧
      s.get2add w u nas p t = ((s.lookUp w u).1, { s with dbec := (s.lookUp w u).2 })) ∨
    ((s.billing.getUd u).data.result = false ∧ (s.lookUp w u).1.data.result = true ∧
      s.get2add w u nas p t =
        ((s.lookUp w u).1, (UserTrack.usrDel { s with dbec := (s.lookUp w u).2 } nas p).2.usrAdd
          w.now nas u p t (s.lookUp w u).1)) := by
  unfold get2add
  simp only
  cases hres : (s.billing.getUd u).data.result with
  | true => exact .inl ⟨rfl, by rw [if_pos rfl]⟩
  | false =>
    rw [if_neg Bool.false_ne_true]
    cases hfound : (s.lookUp w u).1.data.result with
    | false => exact .inr (.inl ⟨rfl, rfl, by simp⟩)
    | true => exact .inr (.inr ⟨rfl, rfl, by simp⟩)

/-- `UserTrack::add`. -/
def add (s : UserTrack) (w : World) (u c p t ua : Bytes) : Bool × UserTrack :=
  let first := s.usrActivate w.now c u p t ua
  if first.1 then (true, first.2)
  else
    let d := first.2.get2add w u c p t
    if d.1.data.result && decide (d.1.data.openTime ≠ 0) then
      (true, (d.2.usrActivate w.now c u p t ua).2)
    else (false, d.2)

/-- What the look-up in `add` finds, behind a `usr_activate` without success, with the
state after it. -/
def addFound (s : UserTrack) (w : World) (u c p t ua : Bytes) : UserRecord × UserTrack :=
  (s.usrActivate w.now c u p t ua).2.get2add w u c p t

/-- The user that is looked up can be added. -/
def Addable (d : UserRecord) : Prop := d.data.result = true ∧ d.data.openTime ≠ 0

/-- **What `add` does**: it activates the user's entry on the port; else it looks the user
up, and activates the new entry for a user who can be added. -/
theorem add_cases (s : UserTrack) (w : World) (u c p t ua : Bytes) :
    ((s.usrActivate w.now c u p t ua).1 = true ∧
      s.add w u c p t ua = (true, (s.usrActivate w.now c u p t ua).2)) ∨
    ((s.usrActivate w.now c u p t ua).1 = false ∧ Addable (s.addFound w u c p t ua).1 ∧
      s.add w u c p t ua =
        (true, ((s.addFound w u c p t ua).2.usrActivate w.now c u p t ua).2)) ∨
    ((s.usrActivate w.now c u p t ua).1 = false ∧ ¬ Addable (s.addFound w u c p t ua).1 ∧
      s.add w u c p t ua = (false, (s.addFound w u c p t ua).2)) := by
  unfold add
  simp only
  cases hfirst : (s.usrActivate w.now c u p t ua).1 with
  | true => exact .inl ⟨rfl, by rw [if_pos rfl]⟩
  | false =>
    rw [if_neg Bool.false_ne_true]
    by_cases hadd : Addable (s.addFound w u c p t ua).1
    · exact .inr (.inl ⟨rfl, hadd, if_pos (by simpa [Addable, addFound] using hadd)⟩)
    · exact .inr (.inr ⟨rfl, hadd, if_neg (by simpa [Addable, addFound] using hadd)⟩)

/-- `UserTrack::del`; the user name is only logged. -/
def del (s : UserTrack) (_u c p : Bytes) : Bool × UserTrack := s.usrDel c p

/-- `CoreDevice::usr_expire`, on the devices one after the other. -/
def expireLoop (now : ℤ) : List Device → UserTrack → UserTrack
  | [], s => s
  | d :: nas, s => expireLoop now nas (s.sweep d.hostaddr (usrExpire now)).2

/-- What `db_authentication` reads while it checks a call. -/
def env (s : UserTrack) (w : World) (call : AuthenCall) : Env where
  get2add u nas p t := (s.get2add w u nas p t).1.data
  numsess u := (s.get2add w call.user call.nas call.port call.remAddr).2.device.numsess u
  time := w.now
  regexec := w.regexec
  checkTime := w.checkTime
  trackedPhone _ _ := []  -- read for authorization only
  modifyer _ _ _ _ data := data

end UserTrack

/-! ## Runs -/

/-- What happens to the tracking system. -/
inductive TrackOp
  /-- `db_authentication`. -/
  | authenticate (call : AuthenCall)
  /-- `get2add`, for an authorization. -/
  | get2add (u nas p t : Bytes)
  /-- `UserTrack::add`: accounting START or UPDATE, or a packet of another server. -/
  | add (u c p t ua : Bytes)
  /-- `UserTrack::del`: accounting STOP, or a packet of another server. -/
  | del (u c p : Bytes)
  /-- `usr_expire`, now and then. -/
  | expire
  /-- A device has gone down: all its users are deleted. -/
  | down (n : Bytes)
  /-- A device is configured. -/
  | device (n : Bytes)
  /-- A getter assigns an entry of this user to a temporary. -/
  | assigned (u : Bytes)
  /-- A temporary of this user is destroyed. -/
  | destroyed (u : Bytes)
  deriving DecidableEq, Repr

/-- One operation, with the value it returns where it returns one. -/
def UserTrack.run (md5 : Bytes → Digest) (s : UserTrack) (w : World) : TrackOp → Bool × UserTrack
  | .authenticate call =>
    (dbAuthentication md5 (s.env w call) call,
      (s.get2add w call.user call.nas call.port call.remAddr).2)
  | .get2add u nas p t =>
    let r := s.get2add w u nas p t
    (r.1.data.result, r.2)
  | .add u c p t ua => s.add w u c p t ua
  | .del u c p => s.del u c p
  | .expire => (true, UserTrack.expireLoop w.now s.device.nas s)
  | .down n => s.sweep n fun cusr => ⟨true, [], cusr⟩
  | .device n => (true, { s with device := s.device.add n })
  | .assigned u =>
    (true, { s with billing := (s.billing.addUd (s.billing.getUd u)).delUd u })
  | .destroyed u => (true, { s with billing := s.billing.delUd u })

/-- The tracking system as a machine; it never stops. -/
def tracking (md5 : Bytes → Digest) : Machine UserTrack (World × TrackOp) Bool Empty where
  init := UserTrack.empty
  step := fun s i =>
    let r := s.run md5 i.1 i.2
    .ok (r.2, r.1)

/-- A server at one moment where every name is that of a user. -/
def openWorld : World where
  now := 0
  db _ := openUser [] [] []
  regexec _ _ := false
  checkTime _ := false

/-- Play operations one after the other, at the same moment. -/
def openRun (ops : List TrackOp) : List (World × TrackOp) := ops.map fun op => (openWorld, op)

end Tacppd
