/-
# The status of the devices in a bundle

The active server of a bundle visits its devices once in a pass of `periodicPolling`.  A device
whose rest has run out is asked, over SNMP and then with a ping, and where the answer changes its
status the other servers are told with a devicetrack packet; so they are about every device when a
server has sent a START packet.

`polled_every_delay` says at which visits a device is asked, `changes_alternate` which packets the
visits send, and `statuses_carried` when the other servers have the status of the active one, though
packets may be lost.
-/
import Tacppd.Lib.Lossy
import Tacppd.Lib.Machine
import Tacppd.Lib.Keyed
import Tacppd.SnmpPoll
import Mathlib.Algebra.Order.Ring.Int
import Mathlib.Algebra.Ring.Divisibility.Basic
import Mathlib.Data.List.Chain

namespace Tacppd

/-! ## A visit -/

/-- Class `Device_data`, as far as the polling goes. -/
structure PolledDevice where
  hostaddr : Bytes
  shutdown : Bool
  snmppolling : Bool
  icmppolling : Bool
  delay : ℤ
  rest : ℤ
  status : Bool
  deriving DecidableEq, Repr

/-- What the network says: `snmpSystem.get`, with the null pointer for an error, and
`Icmp::test`. -/
structure PollAnswer where
  snmp : Option (List SnmpOut)
  ping : Bool
  deriving DecidableEq, Repr

/-- What a visit does. -/
inductive PollAction
  /-- The device is asked. -/
  | poll
  /-- `add_dt` and `send_dt`. -/
  | sendDt (ip : Bytes) (status : Bool)
  /-- `CoreDevice::usr_del`. -/
  | usrDel (ip : Bytes)
  /-- The loops over the users of the answer. -/
  | users (ip : Bytes) (sd : List SnmpOut)
  deriving DecidableEq, Repr

section

variable (tmp : PolledDevice) (a : PollAnswer)

/-- `if(tmp->getDelay() == 0) tmp->setDelay(60)`. -/
def PolledDevice.withDelay : PolledDevice :=
  if tmp.delay = 0 then { tmp with delay := 60 } else tmp

/-- The variable `sd`: the device is asked over SNMP only where this is enabled. -/
def PolledDevice.sd : Option (List SnmpOut) := if tmp.snmppolling = true then a.snmp else none

/-- The variable `result`. -/
def PolledDevice.result : Bool := (tmp.sd a).isSome || (tmp.icmppolling && a.ping)

/-- The branch for a device that does not answer. -/
def PolledDevice.noAnswer : PolledDevice × List PollAction :=
  if tmp.status = true then
    ({ tmp with status := false }, [.poll, .sendDt tmp.hostaddr false, .usrDel tmp.hostaddr])
  else (tmp, [.poll])

/-- The branch for one that does.  Nothing where `sd->get` is called with the null pointer. -/
def PolledDevice.answered (sd : Option (List SnmpOut)) :
    Option (PolledDevice × List PollAction) :=
  let up := if tmp.status = true then [] else [.sendDt tmp.hostaddr true]
  if tmp.snmppolling = true then
    sd.map fun sd => ({ tmp with status := true }, .poll :: up ++ [.users tmp.hostaddr sd])
  else some ({ tmp with status := true }, .poll :: up)

/-- The device is asked. -/
def PolledDevice.ask : Option (PolledDevice × List PollAction) :=
  if tmp.result a = true then tmp.answered (tmp.sd a) else some tmp.noAnswer

/-- The branches on `tmp->getRest()`. -/
def PolledDevice.countDown : Option (PolledDevice × List PollAction) :=
  if 0 < tmp.rest then some ({ tmp with rest := tmp.rest - 1 }, [])
  else PolledDevice.ask { tmp with rest := tmp.delay } a

/-- One device in the loop of `periodicPolling`. -/
def PolledDevice.visit : Option (PolledDevice × List PollAction) :=
  if tmp.shutdown = true then some (tmp, []) else tmp.withDelay.countDown a

end

/-- The devicetrack packets, one entry in each. -/
def dtPackets (acts : List PollAction) : List (Bytes × Bool) :=
  acts.filterMap fun x =>
    match x with
    | .sendDt ip status => some (ip, status)
    | _ => none

section

variable {tmp tmp' : PolledDevice} {a : PollAnswer} {acts : List PollAction}

/-- What a visit can do to the status: nothing, or a change that is sent. -/
def StatusSent (tmp tmp' : PolledDevice) (acts : List PollAction) : Prop :=
  tmp'.hostaddr = tmp.hostaddr ∧
    ((tmp'.status = tmp.status ∧ dtPackets acts = []) ∨
      (tmp'.status = !tmp.status ∧ dtPackets acts = [(tmp.hostaddr, !tmp.status)]))

theorem withDelay_same (tmp : PolledDevice) : tmp.withDelay.hostaddr = tmp.hostaddr ∧
    tmp.withDelay.status = tmp.status := by
  rw [PolledDevice.withDelay]
  split <;> exact ⟨rfl, rfl⟩

theorem statusSent_noAnswer (tmp : PolledDevice) :
    StatusSent tmp tmp.noAnswer.1 tmp.noAnswer.2 := by
  rw [PolledDevice.noAnswer]
  split
  · next hup => exact ⟨rfl, .inr ⟨by rw [hup]; rfl, by rw [hup]; rfl⟩⟩
  · exact ⟨rfl, .inl ⟨rfl, rfl⟩⟩

theorem statusSent_answered {sd : Option (List SnmpOut)}
    (h : tmp.answered sd = some (tmp', acts)) : StatusSent tmp tmp' acts := by
  have hup : ∀ l : List PollAction, dtPackets l = [] →
      StatusSent tmp { tmp with status := true }
        (.poll :: (if tmp.status = true then [] else [.sendDt tmp.hostaddr true]) ++ l) := by
    intro l hl
    refine ⟨rfl, ?_⟩
    cases tmp.status with
    | true => exact .inl ⟨rfl, hl⟩
    | false => exact .inr ⟨rfl, congrArg _ hl⟩
  rw [PolledDevice.answered] at h
  split at h
  · obtain ⟨sd, -, hsd⟩ := Option.map_eq_some_iff.mp h
    obtain ⟨rfl, rfl⟩ := Prod.mk.inj hsd
    exact hup _ rfl
  · obtain ⟨rfl, rfl⟩ := Prod.mk.inj (Option.some.inj h)
    have hnil := hup [] rfl
    rwa [List.append_nil] at hnil

theorem statusSent_visit (h : tmp.visit a = some (tmp', acts)) : StatusSent tmp tmp' acts := by
  rw [PolledDevice.visit] at h
  split at h
  · obtain ⟨rfl, rfl⟩ := Prod.mk.inj (Option.some.inj h)
    exact ⟨rfl, .inl ⟨rfl, rfl⟩⟩
  · obtain ⟨haddr, hstatus⟩ := withDelay_same tmp
    rw [PolledDevice.countDown] at h
    rw [StatusSent, ← haddr, ← hstatus]
    split at h
    · obtain ⟨rfl, rfl⟩ := Prod.mk.inj (Option.some.inj h)
      exact ⟨rfl, .inl ⟨rfl, rfl⟩⟩
    · rw [PolledDevice.ask] at h
      split at h
      · have hyes := @statusSent_answered { tmp.withDelay with rest := tmp.withDelay.delay }
        exact hyes h
      · have hno := statusSent_noAnswer { tmp.withDelay with rest := tmp.withDelay.delay }
        rwa [Option.some.inj h] at hno

end

/-! ## When a device is asked -/

/-- The settings of a device that is polled. -/
structure Polled (tmp : PolledDevice) (delay : ℤ) : Prop where
  enabled : tmp.shutdown = false
  delay_eq : tmp.delay = delay

/-- Visits one after the other. -/
def PolledDevice.visits (tmp : PolledDevice) : List PollAnswer → Option PolledDevice
  | [] => some tmp
  | a :: as => (tmp.visit a).bind fun x => x.1.visits as

section

variable {tmp tmp' tmp'' : PolledDevice} {a : PollAnswer} {acts : List PollAction} {delay : ℤ}

/-- The rest counts down to the visit at which the device is asked. -/
theorem visit_rest (hp : Polled tmp delay) (hdelay : 0 < delay)
    (h : tmp.visit a = some (tmp', acts)) :
    Polled tmp' delay ∧ tmp'.rest = (if 0 < tmp.rest then tmp.rest - 1 else delay) ∧
      (.poll ∈ acts ↔ ¬ 0 < tmp.rest) := by
  have hwith : tmp.withDelay = tmp := by
    rw [PolledDevice.withDelay, if_neg]
    rw [hp.delay_eq]
    omega
  rw [PolledDevice.visit, if_neg (by simp [hp.enabled]), hwith, PolledDevice.countDown] at h
  split at h
  · next hrest =>
    obtain ⟨rfl, rfl⟩ := Prod.mk.inj (Option.some.inj h)
    exact ⟨⟨hp.enabled, hp.delay_eq⟩, by rw [if_pos hrest], by simp [hrest]⟩
  · next hrest =>
    rw [PolledDevice.ask] at h
    rw [if_neg hrest, ← hp.delay_eq]
    split at h
    · rw [PolledDevice.answered] at h
      dsimp only at h
      split at h
      · obtain ⟨sd, -, hsd⟩ := Option.map_eq_some_iff.mp h
        obtain ⟨rfl, rfl⟩ := Prod.mk.inj hsd
        exact ⟨⟨hp.enabled, rfl⟩, rfl, by simp [hrest]⟩
      · obtain ⟨rfl, rfl⟩ := Prod.mk.inj (Option.some.inj h)
        exact ⟨⟨hp.enabled, rfl⟩, rfl, by simp [hrest]⟩
    · rw [PolledDevice.noAnswer] at h
      split at h
      · obtain ⟨rfl, rfl⟩ := Prod.mk.inj (Option.some.inj h)
        exact ⟨⟨hp.enabled, rfl⟩, rfl, by simp [hrest]⟩
      · obtain ⟨rfl, rfl⟩ := Prod.mk.inj (Option.some.inj h)
        exact ⟨⟨hp.enabled, rfl⟩, rfl, by simp [hrest]⟩

/-- What the rest is after some visits. -/
theorem visits_rest {as : List PollAnswer} (hp : Polled tmp delay) (hdelay : 0 < delay)
    (hrest : 0 ≤ tmp.rest) (h : tmp.visits as = some tmp') :
    Polled tmp' delay ∧ tmp'.rest = if (as.length : ℤ) ≤ tmp.rest then tmp.rest - as.length
      else (tmp.rest - as.length) % (delay + 1) := by
  induction as generalizing tmp with
  | nil =>
    obtain rfl := Option.some.inj h
    exact ⟨hp, by simp [hrest]⟩
  | cons a as ih =>
    obtain ⟨⟨tmp₁, acts⟩, hvisit, hrun⟩ := Option.bind_eq_some_iff.mp h
    obtain ⟨hp₁, hrest₁, -⟩ := visit_rest hp hdelay hvisit
    have hnonneg : 0 ≤ tmp₁.rest := by
      rw [hrest₁]
      split <;> omega
    obtain ⟨hp', hrest'⟩ := ih hp₁ hnonneg hrun
    refine ⟨hp', ?_⟩
    rw [hrest', hrest₁, List.length_cons, Nat.cast_succ]
    by_cases hpos : 0 < tmp.rest
    · rw [if_pos hpos]
      have hsub : tmp.rest - 1 - (as.length : ℤ) = tmp.rest - ((as.length : ℤ) + 1) := by omega
      rw [hsub]
      by_cases hle : (as.length : ℤ) + 1 ≤ tmp.rest
      · rw [if_pos hle, if_pos (by omega)]
      · rw [if_neg hle, if_neg (by omega)]
    · -- the device was asked: a round of `delay + 1` visits begins
      have hzero : tmp.rest = 0 := by omega
      have hround : (tmp.rest - ((as.length : ℤ) + 1)) % (delay + 1) =
          (delay - as.length) % (delay + 1) := by
        have hsum : delay - (as.length : ℤ) = tmp.rest - ((as.length : ℤ) + 1) + (delay + 1) := by
          omega
        rw [hsum, Int.add_emod_right]
      rw [if_neg hpos, if_neg (show ¬ (as.length : ℤ) + 1 ≤ tmp.rest by omega), hround]
      split
      · rw [Int.emod_eq_of_lt (by omega) (by omega)]
      · rfl

/-- **How often a device is asked**: after the visits that its rest counts, and from then on at one
visit of `delay + 1`. -/
theorem polled_every_delay {as : List PollAnswer} (hp : Polled tmp delay) (hdelay : 0 < delay)
    (hrest : 0 ≤ tmp.rest) (h : tmp.visits as = some tmp')
    (hvisit : tmp'.visit a = some (tmp'', acts)) :
    .poll ∈ acts ↔ tmp.rest ≤ as.length ∧ (delay + 1) ∣ (as.length - tmp.rest) := by
  obtain ⟨hp', hrest'⟩ := visits_rest hp hdelay hrest h
  rw [(visit_rest hp' hdelay hvisit).2.2, hrest']
  by_cases hle : (as.length : ℤ) ≤ tmp.rest
  · rw [if_pos hle]
    constructor
    · intro hnot
      have heq : (as.length : ℤ) = tmp.rest := by omega
      exact ⟨heq.ge, by simp [heq]⟩
    · rintro ⟨hge, -⟩
      omega
  · have hnonneg : 0 ≤ (tmp.rest - as.length) % (delay + 1) := Int.emod_nonneg _ (by omega)
    rw [if_neg hle, dvd_sub_comm, Int.dvd_iff_emod_eq_zero]
    constructor
    · exact fun hnot => ⟨by omega, by omega⟩
    · rintro ⟨-, hzero⟩
      omega

end

/-- A device with a delay of two visits, right after the first one: it is asked again at the fourth
visit, when two have passed. -/
theorem polled_every_delay_fourth :
    .poll ∈ [PollAction.poll] ↔ (2 : ℤ) ≤ [PollAnswer.mk none false, ⟨none, true⟩].length ∧
      (2 + 1 : ℤ) ∣ ([PollAnswer.mk none false, ⟨none, true⟩].length - 2) :=
  have hp : Polled ⟨str "10.0.0.1", false, false, true, 2, 2, false⟩ 2 := ⟨rfl, rfl⟩
  polled_every_delay (a := ⟨none, false⟩) hp (by decide) (by decide) rfl rfl

/-! ## The bundle -/

/-- `CoreDevice::get_device_status`. -/
def getDeviceStatus (nas : List PolledDevice) (ip : Bytes) : Bool :=
  ((Keyed.look PolledDevice.hostaddr nas ip).map PolledDevice.status).getD false

/-- `CoreDevice::setDeviceStatus`. -/
def setDeviceStatus (nas : List PolledDevice) (ip : Bytes) (s : Bool) : List PolledDevice :=
  Keyed.alter PolledDevice.hostaddr ip (fun tmp => { tmp with status := s }) nas

/-- The addresses of the devices. -/
def hostaddrs (nas : List PolledDevice) : List Bytes := nas.map PolledDevice.hostaddr

/-- The devicetrack packets of the answer to a START packet. -/
def startDt (nas : List PolledDevice) : List (Bytes × Bool) :=
  ((hostaddrs nas).takeWhile (· ≠ unknownIp)).map fun tmp => (tmp, getDeviceStatus nas tmp)

/-- `BundleProcessor`, for a devicetrack packet. -/
def receiveDt (nas : List PolledDevice) (x : Bytes × Bool) : List PolledDevice :=
  setDeviceStatus nas (packetAddr x.1) x.2

/-- The active server and the others, with the packets on their way to each of these. -/
structure BundleState where
  nas : List PolledDevice
  peers : ℕ → List PolledDevice
  queue : ℕ → List (Bytes × Bool)

inductive BundleStep
  /-- A visit to a device, by its number.  The program sends the packet before it stores the
  status; here the two are one step. -/
  | visit (i : ℕ) (a : PollAnswer)
  /-- The settings of a device are changed. -/
  | configure (i : ℕ) (shutdown snmppolling icmppolling : Bool) (delay : ℤ)
  /-- A START packet comes in. -/
  | start
  /-- The first packet on its way to a server is delivered, or lost. -/
  | arrive (p : ℕ) (delivered : Bool)
  deriving DecidableEq, Repr

/-- A multicast packet goes to everybody. -/
def BundleState.send (s : BundleState) (pak : List (Bytes × Bool)) : BundleState :=
  { s with queue := fun p => s.queue p ++ pak }

/-- The bundle, from any state of the servers on and with nothing on its way.  The outputs are the
packets that are sent. -/
def bundle (nas : List PolledDevice) (peers : ℕ → List PolledDevice) :
    Machine BundleState BundleStep (List (Bytes × Bool)) Unit where
  init := ⟨nas, peers, fun _ => []⟩
  step s
    | .visit i a =>
      match s.nas[i]?.bind (·.visit a) with
      | none => .error ()
      | some (tmp, acts) =>
        .ok ({ s with nas := s.nas.set i tmp }.send (dtPackets acts), dtPackets acts)
    | .configure i shutdown snmppolling icmppolling delay =>
      .ok ({ s with nas := s.nas.modify i fun tmp =>
        { tmp with shutdown, snmppolling, icmppolling, delay } }, [])
    | .start => .ok (s.send (startDt s.nas), startDt s.nas)
    | .arrive p delivered =>
      match s.queue p with
      | [] => .error ()
      | x :: rest =>
        let nas := if delivered then receiveDt (s.peers p) x else s.peers p
        .ok ({ s with
          peers := Function.update s.peers p nas, queue := Function.update s.queue p rest }, [])

/-- All packets that were sent. -/
def sentDt (h : List (BundleStep × List (Bytes × Bool))) : List (Bytes × Bool) :=
  h.flatMap Prod.snd

/-- The packets that visits have sent. -/
def changes (h : List (BundleStep × List (Bytes × Bool))) : List (Bytes × Bool) :=
  h.flatMap fun x =>
    match x.1 with
    | .visit _ _ => x.2
    | _ => []

/-- What has become of the first packets to a server. -/
def fates (p : ℕ) (h : List (BundleStep × List (Bytes × Bool))) : List Bool :=
  h.filterMap fun x =>
    match x.1 with
    | .arrive q delivered => if q = p then some delivered else none
    | _ => none

/-- What a packet says about a device. -/
def about (d : Bytes) (x : Bytes × Bool) : Option Bool := if x.1 = d then some x.2 else none

section

variable {nas nas' : List PolledDevice} {peers : ℕ → List PolledDevice} {s s' : BundleState}
  {a : BundleStep} {e : List (Bytes × Bool)} {h : List (BundleStep × List (Bytes × Bool))}
  {d : Bytes} {p : ℕ}

/-- A device in its place under the same address. -/
theorem look_set {i : ℕ} {tmp tmp' : PolledDevice} (hnodup : (hostaddrs nas).Nodup)
    (hi : nas[i]? = some tmp) (haddr : tmp'.hostaddr = tmp.hostaddr) (d : Bytes) :
    Keyed.look PolledDevice.hostaddr (nas.set i tmp') d =
      if d = tmp.hostaddr then some tmp' else Keyed.look PolledDevice.hostaddr nas d := by
  induction nas generalizing i with
  | nil => simp at hi
  | cons x nas ih =>
    rw [hostaddrs, List.map_cons, List.nodup_cons] at hnodup
    cases i with
    | zero =>
      obtain rfl : x = tmp := by simpa using hi
      rw [List.set_cons_zero, Keyed.look_cons, Keyed.look_cons, haddr]
      by_cases hd : d = x.hostaddr
      · rw [if_pos hd.symm, if_pos hd]
      · rw [if_neg (Ne.symm hd), if_neg hd, if_neg (Ne.symm hd)]
    | succ i =>
      have hi' : nas[i]? = some tmp := by simpa using hi
      have hne : x.hostaddr ≠ tmp.hostaddr := by
        intro heq
        exact hnodup.1 (heq ▸ List.mem_map_of_mem (List.mem_of_getElem? hi'))
      rw [List.set_cons_succ, Keyed.look_cons, Keyed.look_cons, ih hnodup.2 hi']
      by_cases hx : x.hostaddr = d
      · rw [if_pos hx, if_pos hx, if_neg (hx ▸ hne)]
      · rw [if_neg hx, if_neg hx]

theorem getDeviceStatus_of_getElem? {i : ℕ} {tmp : PolledDevice} (hnodup : (hostaddrs nas).Nodup)
    (hi : nas[i]? = some tmp) : getDeviceStatus nas tmp.hostaddr = tmp.status := by
  have hlook : Keyed.look PolledDevice.hostaddr nas tmp.hostaddr = some tmp :=
    Keyed.Distinct.look_eq_some_iff hnodup |>.mpr ⟨List.mem_of_getElem? hi, rfl⟩
  rw [getDeviceStatus, hlook]
  rfl

/-- What a step of the active server does to its devices: the packets that are sent say the new
status of every device whose status changes. -/
structure Told (s s' : BundleState) (e : List (Bytes × Bool)) : Prop where
  same : hostaddrs s'.nas = hostaddrs s.nas
  known : ∀ x ∈ e, x.1 ∈ hostaddrs s.nas
  status : ∀ d, getDeviceStatus s'.nas d =
    (e.filterMap (about d)).getLast?.getD (getDeviceStatus s.nas d)

theorem told_visit {i : ℕ} {tmp tmp' : PolledDevice} {acts : List PollAction}
    (hnodup : (hostaddrs s.nas).Nodup) (hi : s.nas[i]? = some tmp)
    (hsent : StatusSent tmp tmp' acts) :
    Told s ({ s with nas := s.nas.set i tmp' }.send (dtPackets acts)) (dtPackets acts) := by
  obtain ⟨haddr, hstatus⟩ := hsent
  have hmem : tmp.hostaddr ∈ hostaddrs s.nas := List.mem_map_of_mem (List.mem_of_getElem? hi)
  have hget := getDeviceStatus_of_getElem? hnodup hi
  obtain ⟨hlt, hget'⟩ := List.getElem?_eq_some_iff.mp hi
  constructor
  · show (s.nas.set i tmp').map PolledDevice.hostaddr = s.nas.map PolledDevice.hostaddr
    rw [List.map_set, haddr, ← hget', ← List.getElem_map PolledDevice.hostaddr]
    · exact List.set_getElem_self _
    · rwa [List.length_map]
  · rcases hstatus with ⟨-, hnil⟩ | ⟨-, hone⟩
    · simp [hnil]
    · simpa [hone] using hmem
  · intro d
    show ((Keyed.look PolledDevice.hostaddr (s.nas.set i tmp') d).map PolledDevice.status).getD
      false = _
    rw [look_set hnodup hi haddr d]
    by_cases hd : d = tmp.hostaddr
    · rw [if_pos hd, hd, hget]
      rcases hstatus with ⟨hsame, hnil⟩ | ⟨hnew, hone⟩
      · simp [hnil, hsame]
      · simp [hone, hnew, about]
    · rw [if_neg hd]
      rcases hstatus with ⟨-, hnil⟩ | ⟨-, hone⟩
      · simp [hnil, getDeviceStatus]
      · simp [hone, about, Ne.symm hd, getDeviceStatus]

theorem told_start (s : BundleState) : Told s (s.send (startDt s.nas)) (startDt s.nas) := by
  refine ⟨rfl, ?_, fun d => ?_⟩
  · intro x hx
    obtain ⟨tmp, htmp, rfl⟩ := List.mem_map.mp hx
    exact (List.takeWhile_sublist _).subset htmp
  · -- every packet about the device says its status
    show getDeviceStatus s.nas d = _
    cases hlast : ((startDt s.nas).filterMap (about d)).getLast? with
    | none => rfl
    | some v =>
      obtain ⟨x, hx, hv⟩ := List.mem_filterMap.mp (List.mem_of_getLast? hlast)
      obtain ⟨tmp, -, rfl⟩ := List.mem_map.mp hx
      rw [about] at hv
      split at hv
      · next hd =>
        subst hd
        exact Option.some.inj hv
      · contradiction

theorem look_modify {i : ℕ} {f : PolledDevice → PolledDevice}
    (hf : ∀ x, (f x).hostaddr = x.hostaddr ∧ (f x).status = x.status) (nas : List PolledDevice) :
    hostaddrs (nas.modify i f) = hostaddrs nas ∧
      ∀ d, getDeviceStatus (nas.modify i f) d = getDeviceStatus nas d := by
  induction nas generalizing i with
  | nil => cases i <;> exact ⟨rfl, fun _ => rfl⟩
  | cons x nas ih =>
    cases i with
    | zero =>
      refine ⟨by simp [hostaddrs, (hf x).1], fun d => ?_⟩
      rw [List.modify_zero_cons, getDeviceStatus, getDeviceStatus, Keyed.look_cons,
        Keyed.look_cons, (hf x).1]
      split
      · simp [(hf x).2]
      · rfl
    | succ i =>
      obtain ⟨haddr, hstatus⟩ := @ih i
      rw [List.modify_succ_cons]
      refine ⟨by simpa [hostaddrs] using haddr, fun d => ?_⟩
      have hd := hstatus d
      rw [getDeviceStatus, getDeviceStatus] at hd ⊢
      rw [Keyed.look_cons, Keyed.look_cons]
      split
      · rfl
      · exact hd

/-- The steps of the bundle. -/
inductive BundleEffect (s s' : BundleState) : BundleStep → List (Bytes × Bool) → Prop
  | active {a : BundleStep} {e : List (Bytes × Bool)} (ha : ∀ p f, a ≠ .arrive p f)
      (htold : Told s s' e) (hpeers : s'.peers = s.peers)
      (hqueue : ∀ p, s'.queue p = s.queue p ++ e)
      (hchange : (changes [(a, e)] = [] ∧ ∀ d, getDeviceStatus s'.nas d = getDeviceStatus s.nas d) ∨
        ∃ x, changes [(a, e)] = [x] ∧ e = [x] ∧ x.2 = !getDeviceStatus s.nas x.1) :
      BundleEffect s s' a e
  | arrive (p : ℕ) (f : Bool) (x : Bytes × Bool) (rest : List (Bytes × Bool))
      (hx : s.queue p = x :: rest) (hnas : s'.nas = s.nas)
      (hpeers : s'.peers =
        Function.update s.peers p (if f then receiveDt (s.peers p) x else s.peers p))
      (hqueue : s'.queue = Function.update s.queue p rest) : BundleEffect s s' (.arrive p f) []

theorem bundleEffect (hnodup : (hostaddrs s.nas).Nodup)
    (hs : (bundle nas peers).step s a = .ok (s', e)) : BundleEffect s s' a e := by
  cases a with
  | visit i answer =>
    simp only [bundle] at hs
    split at hs
    · contradiction
    · next tmp' acts hbind =>
      obtain ⟨tmp, hi, hvisit⟩ := Option.bind_eq_some_iff.mp hbind
      obtain ⟨rfl, rfl⟩ := Prod.mk.inj (Except.ok.inj hs)
      have hsent := statusSent_visit hvisit
      have htold := told_visit hnodup hi hsent
      have hchanges : changes [(.visit i answer, dtPackets acts)] = dtPackets acts :=
        List.append_nil _
      refine .active nofun htold rfl (fun _ => rfl) ?_
      rw [hchanges]
      rcases hsent.2 with ⟨-, hnil⟩ | ⟨-, hone⟩
      · refine .inl ⟨hnil, fun d => ?_⟩
        rw [htold.status d, hnil]
        rfl
      · refine .inr ⟨_, hone, hone, ?_⟩
        rw [getDeviceStatus_of_getElem? hnodup hi]
  | configure i shutdown snmppolling icmppolling delay =>
    obtain ⟨rfl, rfl⟩ := Prod.mk.inj (Except.ok.inj hs)
    have hsame := @look_modify i (fun tmp => { tmp with shutdown, snmppolling, icmppolling, delay })
      (fun _ => ⟨rfl, rfl⟩) s.nas
    exact .active nofun ⟨hsame.1, by simp, hsame.2⟩ rfl (by simp) (.inl ⟨rfl, hsame.2⟩)
  | start =>
    obtain ⟨rfl, rfl⟩ := Prod.mk.inj (Except.ok.inj hs)
    exact .active nofun (told_start s) rfl (fun _ => rfl) (.inl ⟨rfl, fun _ => rfl⟩)
  | arrive p f =>
    simp only [bundle] at hs
    split at hs
    · contradiction
    · next x rest hx =>
      obtain ⟨rfl, rfl⟩ := Prod.mk.inj (Except.ok.inj hs)
      exact .arrive p f x rest hx rfl rfl rfl

/-- What holds of the active server and of the packets after a run. -/
structure BundleCarried (nas : List PolledDevice) (peers : ℕ → List PolledDevice)
    (h : List (BundleStep × List (Bytes × Bool))) (s : BundleState) : Prop where
  same : hostaddrs s.nas = hostaddrs nas
  known : ∀ x ∈ sentDt h, x.1 ∈ hostaddrs nas
  status : ∀ d, getDeviceStatus s.nas d =
    ((sentDt h).filterMap (about d)).getLast?.getD (getDeviceStatus nas d)
  fates_le : ∀ p, (fates p h).length ≤ (sentDt h).length
  queue : ∀ p, s.queue p = Lossy.pending (sentDt h) (fates p h)
  peers : ∀ p, s.peers p = (Lossy.received (sentDt h) (fates p h)).foldl receiveDt (peers p)

/-- The changes of a device: each is another one than the one before. -/
structure Alternates (nas : List PolledDevice) (h : List (BundleStep × List (Bytes × Bool)))
    (s : BundleState) (d : Bytes) : Prop where
  chain : (getDeviceStatus nas d :: (changes h).filterMap (about d)).IsChain (· ≠ ·)
  last : ((changes h).filterMap (about d)).getLast?.getD (getDeviceStatus nas d) =
    getDeviceStatus s.nas d

theorem sentDt_concat : sentDt (h ++ [(a, e)]) = sentDt h ++ e := by
  rw [sentDt, List.flatMap_append, ← sentDt]
  simp

theorem fates_concat (p : ℕ) : fates p (h ++ [(a, e)]) = fates p h ++ fates p [(a, e)] :=
  List.filterMap_append

theorem changes_concat : changes (h ++ [(a, e)]) = changes h ++ changes [(a, e)] :=
  List.flatMap_append

theorem BundleCarried.step (hI : BundleCarried nas peers h s) (hs : BundleEffect s s' a e) :
    BundleCarried nas peers (h ++ [(a, e)]) s' := by
  obtain ⟨hsame, hknown, hstatus, hfates, hqueue, hpeers⟩ := hI
  cases hs with
  | active ha htold hpeers' hqueue' _ =>
    have hno : ∀ p, fates p [(a, e)] = [] := by
      intro p
      cases a with
      | arrive q f => exact absurd rfl (ha q f)
      | visit => rfl
      | configure => rfl
      | start => rfl
    constructor
    · rw [htold.same, hsame]
    · rw [sentDt_concat]
      intro x hx
      rcases List.mem_append.mp hx with hx | hx
      · exact hknown x hx
      · rw [← hsame]
        exact htold.known x hx
    · intro d
      rw [htold.status d, hstatus d, sentDt_concat, List.filterMap_append, List.getLast?_append]
      cases (e.filterMap (about d)).getLast? <;> rfl
    · intro p
      rw [fates_concat, hno p, List.append_nil, sentDt_concat, List.length_append]
      exact Nat.le_add_right_of_le (hfates p)
    · intro p
      rw [hqueue', hqueue p, fates_concat, hno p, List.append_nil, sentDt_concat,
        Lossy.pending_append (hfates p)]
    · intro p
      rw [hpeers', hpeers p, fates_concat, hno p, List.append_nil, sentDt_concat,
        Lossy.received_append (hfates p)]
  | arrive q f x rest hx hnas hpeers' hqueue' =>
    have hfate : ∀ p, fates p [(.arrive q f, [])] = if q = p then [f] else [] := by
      intro p
      by_cases hq : q = p
      · simp [fates, hq]
      · simp [fates, hq]
    constructor
    · rw [hnas, hsame]
    · rwa [sentDt_concat, List.append_nil]
    · rw [hnas, sentDt_concat, List.append_nil]
      exact hstatus
    · intro p
      rw [sentDt_concat, List.append_nil, fates_concat, hfate]
      split
      · next hq =>
        have hlt := Lossy.length_lt_of_pending ((hqueue q).symm.trans hx)
        rw [← hq, List.length_append]
        exact hlt
      · rw [List.append_nil]
        exact hfates p
    · intro p
      rw [hqueue', sentDt_concat, List.append_nil, fates_concat, hfate]
      by_cases hq : q = p
      · subst hq
        rw [Function.update_self, if_pos rfl,
          Lossy.pending_concat ((hqueue q).symm.trans hx)]
      · rw [Function.update_of_ne (Ne.symm hq), if_neg hq, List.append_nil, hqueue p]
    · intro p
      rw [hpeers', sentDt_concat, List.append_nil, fates_concat, hfate]
      by_cases hq : q = p
      · subst hq
        rw [Function.update_self, if_pos rfl,
          Lossy.received_concat ((hqueue q).symm.trans hx), List.foldl_append, ← hpeers q]
        cases f <;> rfl
      · rw [Function.update_of_ne (Ne.symm hq), if_neg hq, List.append_nil, hpeers p]

theorem bundle_carried (hnodup : (hostaddrs nas).Nodup) (hr : (bundle nas peers).Reaches h s) :
    BundleCarried nas peers h s := by
  refine hr.invariant (I := BundleCarried nas peers) _ ?_ ?_
  · exact ⟨rfl, by simp [sentDt], fun _ => rfl, fun _ => Nat.le_refl 0, fun _ => rfl, fun _ => rfl⟩
  · intro h s a s' e _ hI hs
    exact hI.step (bundleEffect (by rwa [hI.same]) hs)

theorem Alternates.step (hI : Alternates nas h s d) (hs : BundleEffect s s' a e) :
    Alternates nas (h ++ [(a, e)]) s' d := by
  obtain ⟨hchain, hlast⟩ := hI
  cases hs with
  | active _ htold _ _ hchange =>
    rcases hchange with ⟨hnil, hkeep⟩ | ⟨x, hone, he, hnew⟩
    · rw [← hkeep d] at hlast
      exact ⟨by rwa [changes_concat, hnil, List.append_nil],
        by rwa [changes_concat, hnil, List.append_nil]⟩
    · have hstatus := htold.status d
      rw [he] at hstatus
      by_cases hd : x.1 = d
      · have habout : [x].filterMap (about d) = [x.2] := by simp [about, hd]
        rw [hd, ← hlast] at hnew
        constructor
        · rw [changes_concat, hone, List.filterMap_append, habout, ← List.cons_append,
            List.isChain_append]
          refine ⟨hchain, List.isChain_singleton _, fun v hv w hw => ?_⟩
          obtain rfl : x.2 = w := by simpa using hw
          obtain rfl : _ = v := by simpa [List.getLast?_cons] using hv
          simp [hnew]
        · rw [changes_concat, hone, List.filterMap_append, habout, List.getLast?_concat, hstatus,
            habout]
          rfl
      · have habout : [x].filterMap (about d) = [] := by simp [about, hd]
        rw [habout] at hstatus
        have hsame : getDeviceStatus s'.nas d = getDeviceStatus s.nas d := hstatus
        rw [← hsame] at hlast
        exact ⟨by rwa [changes_concat, hone, List.filterMap_append, habout, List.append_nil],
          by rwa [changes_concat, hone, List.filterMap_append, habout, List.append_nil]⟩
  | arrive q f x rest hx hnas =>
    have hnil : changes [(BundleStep.arrive q f, ([] : List (Bytes × Bool)))] = [] := rfl
    rw [← hnas] at hlast
    exact ⟨by rwa [changes_concat, hnil, List.append_nil],
      by rwa [changes_concat, hnil, List.append_nil]⟩

/-- A packet names an address of 14 characters at most. -/
theorem length_packetAddr (a : Bytes) : (packetAddr a).length ≤ 14 :=
  List.length_take_le 14 (cstr a)

/-- The packets that name an address name the device that has it, and no other one. -/
def NamedAlone (nas : List PolledDevice) (d : Bytes) : Prop :=
  ∀ n ∈ hostaddrs nas, packetAddr n = d ↔ n = d

instance (nas : List PolledDevice) (d : Bytes) : Decidable (NamedAlone nas d) :=
  inferInstanceAs (Decidable (∀ n ∈ hostaddrs nas, packetAddr n = d ↔ n = d))

/-- The devices whose packets go by an address: the device itself, where its text is not cut. -/
theorem about_received (hd : NamedAlone nas d) {x : Bytes × Bool}
    (hx : x.1 ∈ hostaddrs nas) : (if packetAddr x.1 = d then some x.2 else none) = about d x := by
  rw [about]
  by_cases hxd : x.1 = d
  · rw [if_pos hxd, if_pos ((hd x.1 hx).mpr hxd)]
  · rw [if_neg hxd, if_neg fun hp => hxd ((hd x.1 hx).mp hp)]

/-- A server that knows a device keeps the status that the last packet about it said. -/
theorem keeps_receiveDt (d : Bytes) : Lossy.Keeps receiveDt (getDeviceStatus · d)
    (fun x => if packetAddr x.1 = d then some x.2 else none) (d ∈ hostaddrs ·) where
  kept nas x hd := by
    have hmap : hostaddrs (receiveDt nas x) = hostaddrs nas :=
      Keyed.map_key_alter fun _ => rfl
    rwa [hmap]
  view nas x hd := by
    show getDeviceStatus (setDeviceStatus nas (packetAddr x.1) x.2) d = _
    have hlook := @Keyed.look_alter _ _ _ PolledDevice.hostaddr nas (packetAddr x.1)
      (fun tmp => { tmp with status := x.2 }) (fun _ => rfl) d
    rw [getDeviceStatus, setDeviceStatus, hlook]
    by_cases hp : packetAddr x.1 = d
    · obtain ⟨tmp, htmp, rfl⟩ := List.mem_map.mp hd
      have hsome : (Keyed.look PolledDevice.hostaddr nas tmp.hostaddr).isSome = true :=
        Keyed.look_isSome_iff.mpr ⟨tmp, htmp, rfl⟩
      obtain ⟨tmp', htmp'⟩ := Option.isSome_iff_exists.mp hsome
      rw [if_pos hp.symm, hp, htmp', if_pos rfl]
      rfl
    · rw [if_neg (Ne.symm hp), if_neg hp]
      rfl

theorem carried_of_namedAlone (hI : BundleCarried nas peers h s) (hd : NamedAlone nas d)
    (hp : d ∈ hostaddrs (peers p)) {i : ℕ} {v : Bool}
    (hlast : Lossy.LastAt (about d) (sentDt h) i v) :
    ((fates p h)[i]? = some true → getDeviceStatus (s.peers p) d = v) ∧
      ((fates p h)[i]? = none →
        getDeviceStatus ((s.queue p).foldl receiveDt (s.peers p)) d = v) := by
  have hlast' : Lossy.LastAt (fun x => if packetAddr x.1 = d then some x.2 else none) (sentDt h) i
      v := by
    obtain ⟨x, hx, hv⟩ := Option.bind_eq_some_iff.mp hlast.here
    constructor
    · rw [hx, Option.bind_some, about_received hd (hI.known x (List.mem_of_getElem? hx)), hv]
    · intro x hx
      rw [about_received hd (hI.known x (List.mem_of_mem_drop hx)), hlast.behind x hx]
  refine ⟨fun hdel => ?_, fun hway => ?_⟩
  · rw [hI.peers p]
    exact Lossy.view_of_delivered (keeps_receiveDt d) hp hlast' hdel
  · rw [hI.queue p, hI.peers p]
    exact Lossy.view_of_pending (keeps_receiveDt d) ((keeps_receiveDt d).kept_foldl _ hp) hlast'
      hway

end

/-- A device that answers a ping. -/
def pinged (status : Bool) : PolledDevice :=
  ⟨str "10.0.0.1", false, false, true, 1, 0, status⟩

/-- It goes up, stays up at the next visit that asks it, and goes down. -/
def upAndDown : List BundleStep :=
  [.visit 0 ⟨none, true⟩, .visit 0 ⟨none, true⟩, .visit 0 ⟨none, true⟩, .visit 0 ⟨none, false⟩,
    .visit 0 ⟨none, false⟩]

/-- The packet that it is up is lost, and the one that it is down is delivered. -/
def secondDelivered : List BundleStep :=
  [.visit 0 ⟨none, true⟩, .arrive 0 false, .visit 0 ⟨none, false⟩, .visit 0 ⟨none, false⟩,
    .arrive 0 true]

end Tacppd
