/-
# Resynchronisation of a bundle

A server that joins a bundle sends a START packet, and the active server answers with all
its devices and, for each device, with all users it tracks there (`CoreBundle.cc`).  The
entries are written by `TipSystem::add_ut` and sent by `send_ut`, seven in a packet; the
receiver hands them to `UserTrack::add` or `del`, by their status.

The listener passes `true` for the status of every entry, so inactive entries come up on
the joining server, and an entry behind another one on its port takes its place.  The
receiver cuts an address of fifteen bytes to fourteen.  `resync_iff` says exactly on which
tables of the sender the answer carries the activity over.  Where no text is cut these are
the tables in which the active entries are the last ones on their ports, of users who can
be added (`resyncOk_iff_of_fits`).
-/
import Tacppd.TrackPlace
import Tacppd.UserPackets

namespace Tacppd

/-! ## Packets -/

/-- `struct ut_pak_entry`; the check number is put on when the packet is sent. -/
structure UtPakEntry where
  username : Bytes
  device : Bytes
  userip : Bytes
  port : Bytes
  phone : Bytes
  status : Bool
  deriving DecidableEq, Repr

/-- A text in an entry: `snprintf` with one byte less than `char[32]`. -/
def utText (s : Bytes) : Bytes := snprintf 31 s

/-- `TipSystem::add_ut`: the entry that is put on the list. -/
def addUt (u di ui p t : Bytes) (s : Bool) : UtPakEntry :=
  ⟨utText u, di, ui, utText p, utText t, s⟩

/-- The copy of an entry that goes into the packet. -/
def UtPakEntry.copied (e : UtPakEntry) : UtPakEntry :=
  { e with username := utText e.username, port := utText e.port, phone := utText e.phone }

/-- The packets of an answer, as `read_dt` and `read_ut` give them back where both sides
have the same key (`reads_sendUt`). -/
inductive TipPacket
  | dt (device : Bytes) (status : Bool)
  | ut (entries : List UtPakEntry)
  deriving DecidableEq, Repr

/-- `TIP_MAX_ENT`. -/
def tipMaxEnt : ℕ := 7

/-- The loop of `send_ut`. -/
def sendUtLoop : ℕ → List UtPakEntry → List TipPacket
  | 0, _ => []
  | fuel + 1, pak =>
    if pak = [] then []
    else .ut ((pak.take tipMaxEnt).map UtPakEntry.copied) :: sendUtLoop fuel (pak.drop tipMaxEnt)

/-- `TipSystem::send_ut`: every packet takes an entry at least. -/
def sendUt (pak : List UtPakEntry) : List TipPacket := sendUtLoop pak.length pak

/-! ## The answer to a START packet -/

/-- `CoreDevice::getip(n)`. -/
def CoreDevice.getip (c : CoreDevice) (n : ℕ) : Bytes :=
  ((c.nas[n]?).map Device.hostaddr).getD unknownIp

/-- `CoreDevice::getuser(ip, n)`; nothing for an entry that is not present. -/
def CoreDevice.getuser (c : CoreDevice) (ip : Bytes) (n : ℕ) : Option DeviceUserData :=
  (c.cusr ip)[n]?

namespace UserTrack

/-- The inner loop of the listener, from entry `j` on. -/
def usersLoop (s : UserTrack) (tmp : Bytes) : ℕ → ℕ → List UtPakEntry
  | 0, _ => []
  | fuel + 1, j =>
    match s.device.getuser tmp j with
    | none => []
    | some utmp =>
      addUt utmp.username tmp utmp.useraddr utmp.port utmp.phone true ::
        usersLoop s tmp fuel (j + 1)

/-- The outer loop of the listener, from device `i` on, with the status of the devices. -/
def devicesLoop (s : UserTrack) (status : Bytes → Bool) : ℕ → ℕ → List TipPacket
  | 0, _ => []
  | fuel + 1, i =>
    let tmp := s.device.getip i
    if tmp = unknownIp then []
    else
      .dt tmp (status tmp) :: (sendUt (s.usersLoop tmp ((s.cusr tmp).length + 1) 0) ++
        devicesLoop s status fuel (i + 1))

/-- What the active server sends when it gets a START packet. -/
def answer (s : UserTrack) (status : Bytes → Bool) : List TipPacket :=
  s.devicesLoop status (s.device.nas.length + 1) 0

end UserTrack

/-! ## The joining server -/

/-- The text of an address out of a packet: `snprintf` with one byte less than
`char[16]`. -/
def packetAddr (a : Bytes) : Bytes := snprintf 15 a

namespace UserTrack

/-- One entry of a user-track packet. -/
def receiveEntry (s : UserTrack) (w : World) (e : UtPakEntry) : UserTrack :=
  let device := packetAddr e.device
  if e.status then (s.add w e.username device e.port e.phone (packetAddr e.userip)).2
  else (s.del e.username device e.port).2

/-- One packet: a device that is down loses its users. -/
def receive (s : UserTrack) (w : World) : TipPacket → UserTrack
  | .dt device status =>
    if status then s else (s.sweep (packetAddr device) fun cusr => ⟨true, [], cusr⟩).2
  | .ut entries => entries.foldl (fun s e => s.receiveEntry w e) s

/-- The packets one after the other, each at its own moment. -/
def receiveAll (s : UserTrack) (ws : List (World × TipPacket)) : UserTrack :=
  ws.foldl (fun s x => s.receive x.1 x.2) s

end UserTrack

/-! ## The packets as bytes -/

/-- A text as `add_ut` keeps it. -/
def shortText (s : Bytes) : ShortText :=
  ⟨utText s, fun h0 => zero_not_mem_cstr s (List.mem_of_mem_take h0), List.length_take_le 30 _⟩

/-- The arguments of `add_ut`, with their texts as it keeps them. -/
def utUser (u di ui p t : Bytes) (s : Bool) : UtUser :=
  ⟨shortText u, di, ui, shortText p, shortText t, s⟩

/-- What an entry says, with its addresses as texts. -/
def UtUser.entry (x : UtUser) : UtPakEntry := ⟨x.u, x.di, x.ui, x.p, x.t, x.s⟩

/-- The entry that the listener makes of a structure, with `inet_ntoa`. -/
def UtRecord.entry (inetNtoa : ℕ → Bytes) (r : UtRecord) : UtPakEntry :=
  ⟨r.username, inetNtoa r.device, inetNtoa r.userip, r.port, r.phone, decide (r.status = 1)⟩

/-- The addresses of the entries are texts that `inet_ntoa` writes. -/
def UsersDotted (inetAddr : Bytes → BitVec 32) (inetNtoa : ℕ → Bytes) (users : List UtUser) :
    Prop :=
  ∀ x ∈ users, inetNtoa (inetAddr x.di).toNat = x.di ∧ inetNtoa (inetAddr x.ui).toNat = x.ui

section

variable {order : ByteOrder} {md5 : Bytes → Digest} {inetAddr : Bytes → BitVec 32}
  {inetNtoa : ℕ → Bytes} {key bundleKey : Bytes} {users : List UtUser}

theorem addUt_eq_entry (u di ui p t : Bytes) (s : Bool) :
    addUt u di ui p t s = (utUser u di ui p t s).entry := rfl

theorem copied_entry (x : UtUser) : x.entry.copied = x.entry := by
  simp only [UtPakEntry.copied, UtUser.entry, utText, TipSystem.snprintf_short]

theorem entry_record (h : UsersDotted inetAddr inetNtoa users) :
    (users.map (UtUser.record inetAddr)).map (UtRecord.entry inetNtoa) =
      users.map UtUser.entry := by
  rw [List.map_map]
  apply List.map_congr_left
  intro x hx
  obtain ⟨hdevice, huserip⟩ := h x hx
  rw [Function.comp_apply, UtUser.record, UtRecord.entry, hdevice, huserip, UtUser.entry]
  cases x.s <;> rfl

open TipSystem in
theorem reads_sendLoop (hdotted : UsersDotted inetAddr inetNtoa users) {utmp : Bytes}
    {pri fuel i : ℕ} {rs : ℕ → Fin 32000} (hutmp : utmp.length = Packed.size utPakEntry)
    (hfuel : users.length ≤ fuel)
    (hpads : SamePads md5 key (snprintf 127 bundleKey) rs i users.length) :
    ∃ ls, (sendLoop order md5 key pri rs fuel i utmp (users.map (UtUser.record inetAddr))).mapM
        (receiveUt order md5 bundleKey) = some ls ∧
      ls.map (fun l => TipPacket.ut (l.map (UtRecord.entry inetNtoa))) =
        sendUtLoop fuel (users.map UtUser.entry) := by
  induction fuel generalizing i utmp users with
  | zero => exact ⟨[], rfl, rfl⟩
  | succ fuel ih =>
    by_cases hne : users = []
    · subst hne
      exact ⟨[], rfl, rfl⟩
    · have hmax : maxEnt = 7 := rfl
      have hpos := List.length_pos_of_ne_nil hne
      have hfirst : users.take maxEnt ≠ [] := by
        rw [ne_eq, List.take_eq_nil_iff]
        simp [hmax, hne]
      obtain ⟨hpad, hrest⟩ := (samePads_step hpos).mp hpads
      rw [← hmax, ← List.length_drop] at hrest
      obtain ⟨imgs, utmp', p, hutmp', himgs, hsent, -, hloop⟩ :=
        @sendLoop_succ order md5 inetAddr key utmp pri fuel i rs users hutmp hne
      obtain ⟨ls, hls, hentries⟩ := ih (fun x hx => hdotted x (List.mem_of_mem_drop hx)) hutmp'
        (by rw [List.length_drop]; omega) hrest
      -- the first packet is read as the entries that were put into it
      have hread : receiveUt order md5 bundleKey p =
          some ((users.take maxEnt).map (UtUser.record inetAddr)) := by
        rw [receiveUt_sent hsent, (taken_eq_iff hfirst himgs).mpr hpad]
      refine ⟨(users.take maxEnt).map (UtUser.record inetAddr) :: ls, ?_, ?_⟩
      · rw [hloop, List.mapM_cons, hread, hls]
        rfl
      · have hcopied : ((users.map UtUser.entry).take tipMaxEnt).map UtPakEntry.copied =
            (users.take maxEnt).map UtUser.entry := by
          rw [← List.map_take, List.map_map]
          exact List.map_congr_left fun x _ => copied_entry x
        rw [sendUtLoop, if_neg (by simpa using hne), hcopied, List.map_cons, hentries,
          entry_record fun x hx => hdotted x (List.mem_of_mem_take hx), List.map_drop]
        rfl

open TipSystem in
/-- **The packets that are read** are those of the answer, where both copies of the key give the
same pads. -/
theorem reads_sendUt (hdotted : UsersDotted inetAddr inetNtoa users) {pri : ℕ} {rs : ℕ → Fin 32000}
    (stack : { s : Bytes // s.length = Packed.size utPakEntry })
    (hpads : SamePads md5 (snprintf 31 key) (snprintf 127 key) rs 0 users.length) :
    ((TipSystem.sendUt order md5 key pri rs stack (users.map (TipSystem.addUt inetAddr))).mapM
        (receiveUt order md5 key)).map
      (List.map fun l => TipPacket.ut (l.map (UtRecord.entry inetNtoa))) =
        some (sendUt (users.map UtUser.entry)) := by
  have hadd : users.map (TipSystem.addUt inetAddr) = users.map (UtUser.record inetAddr) :=
    List.map_congr_left fun x _ => TipSystem.addUt_eq x
  obtain ⟨ls, hls, hentries⟩ := @reads_sendLoop order md5 inetAddr inetNtoa (snprintf 31 key) key
    users hdotted stack.1 pri users.length 0 rs stack.2 le_rfl hpads
  rw [hadd, TipSystem.sendUt, List.length_map, hls, Option.map_some, hentries, sendUt,
    List.length_map]

end

/-! ## What resynchronisation is for -/

/-- The activity is carried over: who is active on the receiver is active on the sender, and
every active entry of the sender is active on the receiver, with its address. -/
structure Preserved (s r : UserTrack) : Prop where
  only : ∀ n, ∀ x ∈ r.cusr n, x.active = true →
    ∃ e ∈ s.cusr n, e.active = true ∧ e.username = x.username ∧ e.port = x.port
  all : ∀ n, ∀ e ∈ s.cusr n, e.active = true →
    ∃ x ∈ r.cusr n, x.active = true ∧ x.username = e.username ∧ x.port = e.port ∧
      x.useraddr = e.useraddr

/-- A server that joins: it has the same devices, no users yet, and what the database says. -/
structure Joining (w : World) (s r : UserTrack) : Prop where
  devices : ∀ n, r.device.known n = s.device.known n
  empty : ∀ n, r.cusr n = []
  agrees : r.Agrees w

/-- The devices that the answer is about: those before a device under 0.0.0.0. -/
def UserTrack.sentDevices (s : UserTrack) : List Bytes :=
  (s.device.nas.map Device.hostaddr).takeWhile (· ≠ unknownIp)

/-- The entries on a port, as far as packets tell ports apart, that go by the name of the last
one on it, back to where somebody else is in between; the last one first. -/
def lastRun (q : Bytes) (cusr : List DeviceUserData) : List DeviceUserData :=
  let on := (cusr.filter fun e => utText e.port = q).reverse
  on.takeWhile fun e => on.head?.map (utText ·.username) = some (utText e.username)

/-- The entries of a run that make its user active on a server with this database: all of
them when he can be added.  When he is in the database without open time the first one only
puts him on the port; there are more than one only where texts have been cut. -/
def activating (w : World) (run : List DeviceUserData) : List DeviceUserData :=
  match run with
  | [] => []
  | e :: _ =>
    let d := (w.get (utText e.username)).data
    if d.result then if d.openTime ≠ 0 then run else run.dropLast else []

/-- The address in these entries, the last one that is known. -/
def addrOf (run : List DeviceUserData) : Bytes :=
  ((run.map fun e => packetAddr e.useraddr).find? (· ≠ unknownIp)).getD unknownIp

/-- What a device that is sent adds to the entries that arrive under an address, with the
status of the devices. -/
def UserTrack.arrive (s : UserTrack) (status : Bytes → Bool) (m : Bytes)
    (cusr : List DeviceUserData) (n : Bytes) : List DeviceUserData :=
  if packetAddr n = m then (if status n then cusr else []) ++ s.cusr n else cusr

/-- The entries that arrive under an address, from the last device on that is down. -/
def UserTrack.arrived (s : UserTrack) (status : Bytes → Bool) (m : Bytes) :
    List DeviceUserData :=
  s.sentDevices.foldl (s.arrive status m) []

/-- The condition on the table of the sender: where the last user that arrives on a port can
be added, he is active there; and every active entry is the one of the last user that arrives
on its port, who can be added, with no text cut. -/
structure ResyncOk (w : World) (s : UserTrack) (status : Bytes → Bool) : Prop where
  only : ∀ n, s.device.known n = true → ∀ q x xs,
    activating w (lastRun q (s.arrived status n)) = x :: xs →
      ∃ e ∈ s.cusr n, e.active = true ∧ e.username = utText x.username ∧ e.port = q
  all : ∀ n, ∀ e ∈ s.cusr n, e.active = true →
    ∃ x xs, activating w (lastRun e.port (s.arrived status n)) = x :: xs ∧
      utText x.username = e.username ∧ addrOf (x :: xs) = e.useraddr

/-- A run has an entry on its port. -/
theorem exists_of_activating {w : World} {q : Bytes} {cusr : List DeviceUserData}
    (h : activating w (lastRun q cusr) ≠ []) : ∃ e ∈ cusr, utText e.port = q := by
  have hrun : lastRun q cusr ≠ [] := by
    intro hnil
    rw [hnil] at h
    exact h rfl
  obtain ⟨e, he⟩ := List.exists_mem_of_ne_nil _ hrun
  have hon := List.mem_reverse.mp ((List.takeWhile_prefix _).subset he)
  exact ⟨e, List.mem_of_mem_filter hon, by simpa using (List.mem_filter.mp hon).2⟩

/-- The condition is about the devices of the table, and the ports of what arrives under them. -/
theorem resyncOk_iff {w : World} {s : UserTrack} {status : Bytes → Bool} :
    ResyncOk w s status ↔
      (∀ d ∈ s.device.nas, ∀ e ∈ s.arrived status d.hostaddr,
        ∀ x ∈ (activating w (lastRun (utText e.port) (s.arrived status d.hostaddr))).head?,
          ∃ e' ∈ s.cusr d.hostaddr,
            e'.active = true ∧ e'.username = utText x.username ∧ e'.port = utText e.port) ∧
      ∀ d ∈ s.device.nas, ∀ e ∈ s.cusr d.hostaddr, e.active = true →
        ∃ x ∈ (activating w (lastRun e.port (s.arrived status d.hostaddr))).head?,
          utText x.username = e.username ∧
            addrOf (activating w (lastRun e.port (s.arrived status d.hostaddr))) = e.useraddr := by
  have hknown : ∀ n, s.device.known n = true ↔ ∃ d ∈ s.device.nas, d.hostaddr = n := by
    intro n
    rw [CoreDevice.known, List.any_eq_true]
    simp only [decide_eq_true_eq]
  constructor
  · rintro ⟨honly, hall⟩
    refine ⟨fun d hd e _ x hx => ?_, fun d hd e he hact => ?_⟩
    · obtain ⟨xs, hrun⟩ := List.head?_eq_some_iff.mp hx
      exact honly _ ((hknown _).mpr ⟨d, hd, rfl⟩) _ x xs hrun
    · obtain ⟨x, xs, hrun, huser, haddr⟩ := hall _ e he hact
      rw [hrun]
      exact ⟨x, rfl, huser, haddr⟩
  · rintro ⟨honly, hall⟩
    constructor
    · intro n hn q x xs hrun
      obtain ⟨d, hd, rfl⟩ := (hknown n).mp hn
      obtain ⟨e, he, rfl⟩ := exists_of_activating (hrun ▸ List.cons_ne_nil x xs)
      exact honly d hd e he x (by rw [hrun]; rfl)
    · intro n e he hact
      obtain ⟨d, hd, rfl⟩ := (hknown n).mp (by
        by_contra hno
        rw [UserTrack.cusr, s.device.cusr_of_not_known n (by simpa using hno)] at he
        contradiction)
      obtain ⟨x, hx, huser, haddr⟩ := hall d hd e he hact
      obtain ⟨xs, hrun⟩ := List.head?_eq_some_iff.mp hx
      exact ⟨x, xs, hrun, huser, hrun ▸ haddr⟩

instance (w : World) (s : UserTrack) (status : Bytes → Bool) : Decidable (ResyncOk w s status) :=
  decidable_of_iff _ resyncOk_iff.symm

/-! ## The entries of an answer -/

/-- What a packet says, one by one. -/
inductive TipEvent
  | dt (device : Bytes) (status : Bool)
  | ut (e : UtPakEntry)
  deriving DecidableEq, Repr

def TipPacket.events : TipPacket → List TipEvent
  | .dt device status => [.dt device status]
  | .ut entries => entries.map .ut

/-- The entry that is sent for a tracked user. -/
def DeviceUserData.sent (n : Bytes) (e : DeviceUserData) : UtPakEntry :=
  addUt e.username n e.useraddr e.port e.phone true

theorem utText_utText (s : Bytes) : utText (utText s) = utText s := by
  apply snprintf_eq_self
  · exact fun h => zero_not_mem_cstr s (List.mem_of_mem_take h)
  · exact List.length_take_le ..

theorem copied_addUt (u di ui p t : Bytes) (s : Bool) :
    (addUt u di ui p t s).copied = addUt u di ui p t s := by
  simp only [UtPakEntry.copied, addUt, utText_utText]

/-- All entries are sent, in order. -/
theorem flatMap_events_sendUt (pak : List UtPakEntry) :
    (sendUt pak).flatMap TipPacket.events = (pak.map UtPakEntry.copied).map .ut := by
  have hloop : ∀ fuel (pak : List UtPakEntry), pak.length ≤ fuel →
      (sendUtLoop fuel pak).flatMap TipPacket.events = (pak.map UtPakEntry.copied).map .ut := by
    intro fuel
    induction fuel with
    | zero =>
      intro pak hlen
      obtain rfl := List.length_eq_zero_iff.mp (Nat.le_zero.mp hlen)
      rfl
    | succ fuel ih =>
      intro pak hlen
      rw [sendUtLoop]
      split
      · next hnil =>
        subst hnil
        rfl
      · next hne =>
        have hpos := List.length_pos_of_ne_nil hne
        have hrest : (pak.drop tipMaxEnt).length ≤ fuel := by
          rw [List.length_drop, tipMaxEnt]
          omega
        rw [List.flatMap_cons, ih _ hrest]
        conv_rhs => rw [← List.take_append_drop tipMaxEnt pak, List.map_append, List.map_append]
        rfl
  exact hloop _ pak le_rfl

namespace UserTrack

variable {s : UserTrack} {n : Bytes}

theorem usersLoop_eq (s : UserTrack) (n : Bytes) :
    s.usersLoop n ((s.cusr n).length + 1) 0 = (s.cusr n).map (·.sent n) := by
  have hloop : ∀ fuel j, (s.cusr n).length < fuel + j →
      s.usersLoop n fuel j = ((s.cusr n).drop j).map (·.sent n) := by
    intro fuel
    induction fuel with
    | zero =>
      intro j hj
      rw [List.drop_eq_nil_of_le (by omega)]
      rfl
    | succ fuel ih =>
      intro j hj
      rw [usersLoop, CoreDevice.getuser]
      show (match (s.cusr n)[j]? with | none => _ | some utmp => _) = _
      rcases Nat.lt_or_ge j (s.cusr n).length with hlt | hge
      · rw [List.getElem?_eq_getElem hlt, List.drop_eq_getElem_cons hlt, List.map_cons,
          ← ih (j + 1) (by omega)]
        rfl
      · rw [List.getElem?_eq_none hge, List.drop_eq_nil_of_le hge]
        rfl
  simpa using hloop _ 0 (by omega)

/-- What is said about one device. -/
def deviceEvents (s : UserTrack) (status : Bytes → Bool) (n : Bytes) : List TipEvent :=
  .dt n (status n) :: (s.cusr n).map fun e => .ut (e.sent n)

/-- **The answer**: every device that is sent with all its users. -/
theorem answer_events (s : UserTrack) (status : Bytes → Bool) :
    (s.answer status).flatMap TipPacket.events =
      s.sentDevices.flatMap (s.deviceEvents status) := by
  have hloop : ∀ fuel i, s.device.nas.length < fuel + i →
      (s.devicesLoop status fuel i).flatMap TipPacket.events =
        (((s.device.nas.map Device.hostaddr).drop i).takeWhile (· ≠ unknownIp)).flatMap
          (s.deviceEvents status) := by
    intro fuel
    induction fuel with
    | zero =>
      intro i hi
      rw [List.drop_eq_nil_of_le (by rw [List.length_map]; omega)]
      rfl
    | succ fuel ih =>
      intro i hi
      rw [devicesLoop, CoreDevice.getip]
      rcases Nat.lt_or_ge i s.device.nas.length with hlt | hge
      · have hlt' : i < (s.device.nas.map Device.hostaddr).length := by
          rwa [List.length_map]
        rw [List.getElem?_eq_getElem hlt, Option.map_some, Option.getD_some,
          List.drop_eq_getElem_cons hlt', List.getElem_map, List.takeWhile_cons]
        by_cases hunknown : (s.device.nas[i]).hostaddr = unknownIp
        · simp [hunknown]
        · simp only [hunknown, if_false, ne_eq, not_false_eq_true, decide_true, if_true,
            List.flatMap_cons, List.flatMap_append, ih (i + 1) (by omega),
            flatMap_events_sendUt, usersLoop_eq, deviceEvents, TipPacket.events, List.map_map,
            List.cons_append, List.nil_append]
          congr 2
          apply List.map_congr_left
          intro e he
          simp only [Function.comp_apply, DeviceUserData.sent, copied_addUt]
      · rw [List.getElem?_eq_none hge, List.drop_eq_nil_of_le (by rwa [List.length_map])]
        simp
  rw [answer, sentDevices, hloop _ 0 (by omega), List.drop_zero]

end UserTrack

/-! ## What comes on a port -/

section

variable {w w' : World} {u n q t : Bytes} {e : DeviceUserData} {cusr run : List DeviceUserData}
  {on : Option DeviceUserData}

/-- What counts about an entry: the name, the activity and the address. -/
def DeviceUserData.seen (e : DeviceUserData) : Bytes × Bool × Bytes :=
  (e.username, e.active, e.useraddr)

/-- What a run leaves on its port. -/
def shown (w : World) (run : List DeviceUserData) : Option (Bytes × Bool × Bytes) :=
  match run with
  | [] => none
  | e :: _ =>
    if (w.get (utText e.username)).data.result then
      some (utText e.username, decide (activating w run ≠ []), addrOf (activating w run))
    else none

/-- An entry on another port leaves the run as it is, and one on the port goes in front of
the run or starts a new one. -/
theorem lastRun_concat (q : Bytes) (cusr : List DeviceUserData) (e : DeviceUserData) :
    lastRun q (cusr ++ [e]) =
      if utText e.port = q then
        e :: if (lastRun q cusr).head?.map (utText ·.username) = some (utText e.username) then
          lastRun q cusr else []
      else lastRun q cusr := by
  unfold lastRun
  simp only [List.filter_append, List.reverse_append]
  by_cases hq : utText e.port = q
  · have hone : [e].filter (fun e => utText e.port = q) = [e] := by
      simp [hq]
    rw [if_pos hq, hone, List.reverse_singleton, List.singleton_append, List.head?_cons,
      Option.map_some, List.takeWhile_cons, if_pos (by simp)]
    congr 1
    generalize (cusr.filter fun e => utText e.port = q).reverse = on
    rcases on with _ | ⟨x, on⟩
    · simp
    · rw [List.head?_cons, Option.map_some, List.takeWhile_cons, List.takeWhile_cons]
      by_cases hx : utText x.username = utText e.username
      · simp [hx]
      · simp [hx, Ne.symm hx]
  · have hnone : [e].filter (fun e => utText e.port = q) = [] := by
      simp [hq]
    rw [if_neg hq, hnone, List.reverse_nil, List.nil_append]

/-- A run makes its user active with this name and this address. -/
theorem shown_eq_active {u a : Bytes} :
    shown w run = some (u, true, a) ↔
      ∃ x xs, activating w run = x :: xs ∧ utText x.username = u ∧ addrOf (x :: xs) = a := by
  rcases run with _ | ⟨e, es⟩
  · simp [shown, activating]
  · rw [shown]
    by_cases hres : (w.get (utText e.username)).data.result = true
    · have hhead : ∀ x xs, activating w (e :: es) = x :: xs → x = e := by
        intro x xs hx
        rw [activating, if_pos hres] at hx
        split at hx
        · exact (List.cons_eq_cons.mp hx).1.symm
        · rcases es with _ | ⟨e', es⟩
          · contradiction
          · exact (List.cons_eq_cons.mp hx).1.symm
      rw [if_pos hres]
      rcases hact : activating w (e :: es) with _ | ⟨x, xs⟩
      · simp
      · obtain rfl := hhead x xs hact
        simp
    · simp [hres, activating]

theorem addrOf_cons (e : DeviceUserData) (run : List DeviceUserData) :
    addrOf (e :: run) =
      if packetAddr e.useraddr ≠ unknownIp then packetAddr e.useraddr else addrOf run := by
  rw [addrOf, List.map_cons, List.find?_cons]
  by_cases he : packetAddr e.useraddr = unknownIp
  · simp [he, addrOf]
  · simp [he]

/-- Where the user is not on the port, `add` leaves what one entry shows. -/
theorem seen_placed_of_none {p : Bytes} (hdb : w'.db = w.db)
    (hon : (on.bind fun x => if x.username = utText e.username then some x else none) = none) :
    (UserTrack.placed w' (utText e.username) n p t (packetAddr e.useraddr) on).map
        DeviceUserData.seen =
      shown w [e] := by
  rw [UserTrack.placed, hon, World.get_congr hdb, shown]
  by_cases hres : (w.get (utText e.username)).data.result = true
  · rw [if_pos hres, if_pos hres, activating, if_pos hres]
    by_cases hopen : (w.get (utText e.username)).data.openTime ≠ 0
    · rw [if_pos hopen, if_pos hopen, addrOf_cons]
      rfl
    · rw [if_neg hopen, if_neg hopen]
      rfl
  · rw [if_neg hres, if_neg hres]
    rfl

/-- A run shows the name of its user. -/
theorem head_of_shown {z : Bytes × Bool × Bytes} (h : shown w run = some z) :
    ∃ y ys, run = y :: ys ∧ utText y.username = z.1 ∧ (w.get z.1).data.result = true ∧
      addrOf (activating w run) = z.2.2 := by
  rcases run with _ | ⟨y, ys⟩
  · contradiction
  · rw [shown] at h
    split at h
    · next hres =>
      obtain rfl := Option.some.inj h
      exact ⟨y, ys, rfl, rfl, hres, rfl⟩
    · contradiction

/-- Where he is, it leaves what the run shows with the entry in front of it. -/
theorem seen_placed_of_some {p : Bytes} {x : DeviceUserData}
    (hx : x.username = utText e.username) (hon : shown w run = some x.seen) :
    (UserTrack.placed w' (utText e.username) n p t (packetAddr e.useraddr) (some x)).map
      DeviceUserData.seen = shown w (e :: run) := by
  obtain ⟨y, ys, rfl, hname, hres, haddr⟩ := head_of_shown hon
  have hy : utText y.username = utText e.username := hname.trans hx
  replace hres : (w.get (utText e.username)).data.result = true := hx ▸ hres
  replace haddr : addrOf (activating w (y :: ys)) = x.useraddr := haddr
  have hcons : activating w (e :: y :: ys) = e :: activating w (y :: ys) := by
    rw [activating, activating, hy, if_pos hres, if_pos hres]
    split
    · rfl
    · rfl
  rw [UserTrack.placed, Option.bind_some, if_pos hx, shown, if_pos hres, hcons, addrOf_cons,
    haddr, ← hx]
  simp [DeviceUserData.seen, DeviceUserData.update, DeviceUserData.setActive]

/-- **One entry**: what `add` puts on the port is what the run shows with the entry in
front of it, when the run is one of this user. -/
theorem seen_placed {p : Bytes} (hdb : w'.db = w.db)
    (hon : on.map DeviceUserData.seen = shown w run) :
    (UserTrack.placed w' (utText e.username) n p t (packetAddr e.useraddr) on).map
        DeviceUserData.seen =
      shown w (e :: if run.head?.map (utText ·.username) = some (utText e.username) then run
        else []) := by
  rcases on with _ | x
  · rw [seen_placed_of_none hdb rfl]
    by_cases hhead : run.head?.map (utText ·.username) = some (utText e.username)
    · -- the user of the run is not in the database
      rcases run with _ | ⟨y, ys⟩
      · contradiction
      · have hy : utText y.username = utText e.username := Option.some.inj hhead
        rw [Option.map_none, shown, hy] at hon
        split at hon
        · contradiction
        · next hres => rw [if_pos hhead, shown, shown, if_neg hres, if_neg hres]
    · rw [if_neg hhead]
  · obtain ⟨y, ys, rfl, hname, -⟩ := head_of_shown hon.symm
    have hhead : ((y :: ys).head?.map (utText ·.username) = some (utText e.username)) ↔
        x.username = utText e.username := by
      rw [List.head?_cons, Option.map_some, hname, Option.some_inj]
      rfl
    by_cases hx : x.username = utText e.username
    · rw [seen_placed_of_some hx hon.symm, if_pos (hhead.mpr hx)]
    · rw [seen_placed_of_none hdb (by rw [Option.bind_some, if_neg hx]),
        if_neg (fun h => hx (hhead.mp h))]

end

/-! ## The joining server, entry by entry -/

namespace UserTrack

variable {s r : UserTrack} {w w' : World} {n : Bytes} {got : Bytes → List DeviceUserData}

/-- One thing that a packet says. -/
def receiveEvent (s : UserTrack) (w : World) : TipEvent → UserTrack
  | .dt device status => s.receive w (.dt device status)
  | .ut e => s.receiveEntry w e

theorem receive_eq (s : UserTrack) (w : World) (pak : TipPacket) :
    s.receive w pak = pak.events.foldl (fun s ev => s.receiveEvent w ev) s := by
  cases pak with
  | dt device status => rfl
  | ut entries =>
    rw [TipPacket.events, List.foldl_map]
    rfl

/-- The events of packets, each with the moment of its packet. -/
def eventsAt (ws : List (World × TipPacket)) : List (World × TipEvent) :=
  ws.flatMap fun x => x.2.events.map fun ev => (x.1, ev)

theorem receiveAll_eq (s : UserTrack) (ws : List (World × TipPacket)) :
    s.receiveAll ws = (eventsAt ws).foldl (fun s x => s.receiveEvent x.1 x.2) s := by
  rw [eventsAt, List.foldl_flatMap, receiveAll]
  congr 1
  funext s x
  rw [List.foldl_map, receive_eq]

/-- The receiver stands where it stands when it has got these entries under each
address. -/
structure Stands (w : World) (s r : UserTrack) (got : Bytes → List DeviceUserData) : Prop where
  onePerPort : r.OnePerPort
  agrees : r.Agrees w
  devices : ∀ n, r.device.known n = s.device.known n
  shows : ∀ n, s.device.known n = true → ∀ q,
    (firstOn q (r.cusr n)).map DeviceUserData.seen = shown w (lastRun q (got n))

theorem stands_of_joining (h : Joining w s r) : Stands w s r fun _ => [] where
  onePerPort n := by
    rw [h.empty n]
    exact List.nodup_nil
  agrees := h.agrees
  devices := h.devices
  shows n hn q := by
    rw [h.empty n]
    rfl

/-- **Step**: one entry of a user. -/
theorem Stands.entry (h : Stands w s r got) (hdb : w'.db = w.db) (e : DeviceUserData) :
    Stands w s (r.receiveEntry w' (e.sent n))
      (Function.update got (packetAddr n) (got (packetAddr n) ++ [e])) := by
  have hadd : r.receiveEntry w' (e.sent n) =
      (r.add w' (utText e.username) (packetAddr n) (utText e.port) (utText e.phone)
        (packetAddr e.useraddr)).2 := rfl
  have hagrees : r.Agrees w' := h.agrees.congr hdb.symm
  rw [hadd]
  refine ⟨h.onePerPort.add, hagrees.add.congr hdb, fun m => ?_, fun m hm q => ?_⟩
  · rw [known_add]
    exact h.devices m
  · have hshows := h.shows m hm
    rw [← h.devices m] at hm
    rw [firstOn_add h.onePerPort hagrees hm]
    by_cases hmn : m = packetAddr n
    · rw [hmn] at hshows ⊢
      rw [Function.update_self, lastRun_concat]
      by_cases hq : q = utText e.port
      · rw [if_pos ⟨rfl, hq⟩, if_pos hq.symm, hq]
        exact seen_placed hdb (hshows _)
      · rw [if_neg (fun h => hq h.2), if_neg (Ne.symm hq)]
        exact hshows q
    · rw [if_neg (fun h => hmn h.1), Function.update_of_ne hmn]
      exact hshows q

/-- **Step**: the status of a device. -/
theorem Stands.device (h : Stands w s r got) (status : Bool) :
    Stands w s (r.receive w' (.dt n status))
      (Function.update got (packetAddr n) (if status then got (packetAddr n) else [])) := by
  cases status with
  | true =>
    rw [if_pos rfl, Function.update_eq_self]
    exact h
  | false =>
    rw [if_neg Bool.false_ne_true]
    refine ⟨h.onePerPort.sweep _ fun _ => List.nil_sublist _, h.agrees.sweep _, fun m => ?_,
      fun m hm q => ?_⟩
    · exact (known_sweep r _ m _).trans (h.devices m)
    · show (firstOn q ((r.sweep (packetAddr n) fun cusr => ⟨true, [], cusr⟩).2.cusr m)).map _ = _
      rw [sweep_cusr _ _ rfl]
      by_cases hmn : m = packetAddr n
      · rw [if_pos hmn, hmn, Function.update_self]
        rfl
      · rw [if_neg hmn, Function.update_of_ne hmn]
        exact h.shows m hm q

/-- **Run**: all users of a device. -/
theorem Stands.users (h : Stands w s r got) {cusr : List DeviceUserData}
    {xs : List (World × TipEvent)} (hxs : xs.map Prod.snd = cusr.map fun e => .ut (e.sent n))
    (hdb : ∀ x ∈ xs, x.1.db = w.db) :
    Stands w s (xs.foldl (fun s x => s.receiveEvent x.1 x.2) r)
      (Function.update got (packetAddr n) (got (packetAddr n) ++ cusr)) := by
  induction cusr generalizing r got xs with
  | nil =>
    obtain rfl := List.map_eq_nil_iff.mp hxs
    rw [List.append_nil, Function.update_eq_self]
    exact h
  | cons e cusr ih =>
    obtain ⟨x, xs, rfl, hx, hxs⟩ := List.map_eq_cons_iff.mp hxs
    rw [List.forall_mem_cons] at hdb
    have hstep : Stands w s (r.receiveEntry x.1 (e.sent n)) _ := h.entry hdb.1 e
    have hrun := ih hstep hxs hdb.2
    rw [Function.update_self, Function.update_idem, List.append_assoc] at hrun
    rw [List.foldl_cons, hx]
    exact hrun

/-- **Run**: all devices, each with its users. -/
theorem Stands.run (h : Stands w s r got) {status : Bytes → Bool} {ns : List Bytes}
    {xs : List (World × TipEvent)} (hxs : xs.map Prod.snd = ns.flatMap (s.deviceEvents status))
    (hdb : ∀ x ∈ xs, x.1.db = w.db) :
    Stands w s (xs.foldl (fun s x => s.receiveEvent x.1 x.2) r)
      fun m => ns.foldl (s.arrive status m) (got m) := by
  induction ns generalizing r got xs with
  | nil =>
    obtain rfl := List.map_eq_nil_iff.mp hxs
    exact h
  | cons n ns ih =>
    rw [List.flatMap_cons, deviceEvents, List.cons_append] at hxs
    obtain ⟨x, xs, rfl, hx, hxs⟩ := List.map_eq_cons_iff.mp hxs
    obtain ⟨users, rest, rfl, husers, hrest⟩ := List.map_eq_append_iff.mp hxs
    rw [List.forall_mem_cons, List.forall_mem_append] at hdb
    have hdevice : Stands w s (r.receive x.1 (.dt n (status n))) _ := h.device (status n)
    have hrun := ih (hdevice.users husers hdb.2.1) hrest hdb.2.2
    rw [Function.update_self, Function.update_idem] at hrun
    have harrive : ∀ m, Function.update got (packetAddr n)
        ((if status n then got (packetAddr n) else []) ++ s.cusr n) m =
          s.arrive status m (got m) n := by
      intro m
      rw [arrive]
      by_cases hm : packetAddr n = m
      · rw [if_pos hm, ← hm, Function.update_self]
      · rw [if_neg hm, Function.update_of_ne (Ne.symm hm)]
    simp only [harrive] at hrun
    rw [List.foldl_cons, List.foldl_append, hx]
    exact hrun

/-- **The joining server** has got what arrives under each address. -/
theorem stands_receiveAll (hjoin : Joining w s r) {status : Bytes → Bool}
    {ws : List (World × TipPacket)} (hws : ws.map Prod.snd = s.answer status)
    (hdb : ∀ x ∈ ws, x.1.db = w.db) : Stands w s (r.receiveAll ws) (s.arrived status) := by
  have hevents : (eventsAt ws).map Prod.snd = s.sentDevices.flatMap (s.deviceEvents status) := by
    rw [← answer_events, ← hws, List.flatMap_map, eventsAt, List.map_flatMap]
    congr 1
    funext x
    rw [List.map_map]
    exact List.map_id _
  have hmoments : ∀ x ∈ eventsAt ws, x.1.db = w.db := by
    intro x hx
    obtain ⟨y, hy, hx⟩ := List.mem_flatMap.mp hx
    obtain ⟨ev, -, rfl⟩ := List.mem_map.mp hx
    exact hdb y hy
  rw [receiveAll_eq]
  exact (stands_of_joining hjoin).run hevents hmoments

/-- Who is active on the joining server. -/
theorem Stands.active_iff {u q a : Bytes} (h : Stands w s r got)
    (hn : s.device.known n = true) :
    (∃ x ∈ r.cusr n, x.active = true ∧ x.username = u ∧ x.port = q ∧ x.useraddr = a) ↔
      ∃ x xs, activating w (lastRun q (got n)) = x :: xs ∧ utText x.username = u ∧
        addrOf (x :: xs) = a := by
  rw [← shown_eq_active, ← h.shows n hn q, Option.map_eq_some_iff]
  constructor
  · rintro ⟨x, hx, hact, rfl, hport, rfl⟩
    refine ⟨x, (firstOn_eq_some_iff (h.onePerPort n)).mpr ⟨hx, hport⟩, ?_⟩
    rw [DeviceUserData.seen, hact]
  · rintro ⟨x, hfirst, hseen⟩
    obtain ⟨hx, hport⟩ := (firstOn_eq_some_iff (h.onePerPort n)).mp hfirst
    obtain ⟨hu, hrest⟩ := Prod.mk.inj hseen
    obtain ⟨hact, ha⟩ := Prod.mk.inj hrest
    exact ⟨x, hx, hact, hu, hport, ha⟩

theorem known_of_mem_cusr {e : DeviceUserData} (he : e ∈ s.cusr n) : s.device.known n = true := by
  by_contra hunknown
  rw [UserTrack.cusr, s.device.cusr_of_not_known n (Bool.eq_false_iff.mpr hunknown)] at he
  contradiction

end UserTrack

/-! ## Tables without cut texts -/

/-- Names and addresses fit the packets and the buffers of the receiver, and nobody has two
entries on a port. -/
structure TextsFit (s : UserTrack) : Prop where
  devices : ∀ n ∈ s.sentDevices, packetAddr n = n
  names : ∀ n, ∀ e ∈ s.cusr n, utText e.username = e.username ∧ utText e.port = e.port
  addresses : ∀ n, ∀ e ∈ s.cusr n, packetAddr e.useraddr = e.useraddr
  once : ∀ n, ((s.cusr n).map fun e => (e.username, e.port)).Nodup

/-- What arrives under an address is then what the device of that address has. -/
theorem TextsFit.arrived_eq {s : UserTrack} (h : TextsFit s) (status : Bytes → Bool)
    (m : Bytes) : s.arrived status m = if m ∈ s.sentDevices then s.cusr m else [] := by
  have hfold : ∀ ns : List Bytes, ns.Nodup → (∀ n ∈ ns, packetAddr n = n) → ∀ cusr,
      ns.foldl (s.arrive status m) cusr =
        if m ∈ ns then (if status m then cusr else []) ++ s.cusr m else cusr := by
    intro ns
    induction ns with
    | nil =>
      intro hnodup hns cusr
      rfl
    | cons n ns ih =>
      intro hnodup hns cusr
      obtain ⟨hn, hnodup⟩ := List.nodup_cons.mp hnodup
      rw [List.forall_mem_cons] at hns
      rw [List.foldl_cons, ih hnodup hns.2, UserTrack.arrive, hns.1]
      by_cases hm : n = m
      · subst hm
        rw [if_neg hn, if_pos rfl, if_pos List.mem_cons_self]
      · rw [if_neg hm]
        simp [Ne.symm hm]
  have hnodup : s.sentDevices.Nodup := s.device.nodup.sublist (List.takeWhile_sublist _)
  rw [UserTrack.arrived, hfold _ hnodup h.devices, ite_self, List.nil_append]

theorem mem_lastRun {q : Bytes} {cusr : List DeviceUserData} {x : DeviceUserData}
    (hx : x ∈ lastRun q cusr) : x ∈ cusr ∧ utText x.port = q := by
  have hon := (List.takeWhile_sublist _).subset hx
  rw [List.mem_reverse, List.mem_filter] at hon
  exact ⟨hon.1, of_decide_eq_true hon.2⟩

theorem lastRun_append {q : Bytes} {cusr l : List DeviceUserData}
    (hl : ∀ x ∈ l, utText x.port ≠ q) : lastRun q (cusr ++ l) = lastRun q cusr := by
  have hnone : l.filter (fun e => utText e.port = q) = [] := by
    rw [List.filter_eq_nil_iff]
    intro x hx
    simp [hl x hx]
  rw [lastRun, List.filter_append, hnone, List.append_nil]
  rfl

/-- A run is then the last entry on its port. -/
theorem TextsFit.lastRun_eq {s : UserTrack} (h : TextsFit s) {n : Bytes}
    {l l' : List DeviceUserData} {e : DeviceUserData} (hsplit : s.cusr n = l ++ e :: l')
    (hnot : NotOn e.port l') : lastRun e.port (s.cusr n) = [e] := by
  have hfits := h.names n
  have honce := h.once n
  rw [hsplit] at hfits honce ⊢
  have hbehind : ∀ x ∈ l', utText x.port ≠ e.port := by
    intro x hx
    rw [(hfits x (by simp [hx])).2]
    exact hnot x hx
  have he := hfits e (by simp)
  rw [List.append_cons, lastRun_append hbehind, lastRun_concat, if_pos he.2, if_neg]
  rintro hhead
  obtain ⟨x, hx, hname⟩ := Option.map_eq_some_iff.mp hhead
  obtain ⟨hmem, hport⟩ := mem_lastRun (List.mem_of_head? hx)
  have hx := hfits x (by simp [hmem])
  rw [hx.1, he.1] at hname
  rw [hx.2] at hport
  rw [List.map_append, List.map_cons, List.nodup_append'] at honce
  refine honce.2.2 (List.mem_map_of_mem hmem) ?_
  rw [hname, hport]
  exact List.mem_cons_self

theorem activating_singleton {w : World} {e : DeviceUserData} {run : List DeviceUserData} :
    activating w [e] = run ↔
      (UserTrack.Addable (w.get (utText e.username)) ∧ run = [e]) ∨
        (¬ UserTrack.Addable (w.get (utText e.username)) ∧ run = []) := by
  rw [activating, UserTrack.Addable]
  by_cases hres : (w.get (utText e.username)).data.result = true
  · by_cases hopen : (w.get (utText e.username)).data.openTime ≠ 0
    · simp [hres, hopen, eq_comm]
    · simp [hres, hopen, eq_comm]
  · simp [hres, eq_comm]

/-- The last entry on a port. -/
theorem notOn_or_last (q : Bytes) (cusr : List DeviceUserData) :
    NotOn q cusr ∨ ∃ l e l', cusr = l ++ e :: l' ∧ e.port = q ∧ NotOn q l' := by
  induction cusr with
  | nil => exact .inl (by simp [NotOn])
  | cons x cusr ih =>
    rcases ih with hnot | ⟨l, e, l', rfl, he, hnot⟩
    · by_cases hx : x.port = q
      · exact .inr ⟨[], x, cusr, rfl, hx, hnot⟩
      · exact .inl (notOn_cons.mpr ⟨hx, hnot⟩)
    · exact .inr ⟨x :: l, e, l', rfl, he, hnot⟩

/-- Who is activated on a port: the last user on it, when he can be added. -/
theorem TextsFit.activating_iff {w : World} {s : UserTrack} (h : TextsFit s) {n q : Bytes}
    {x : DeviceUserData} {xs : List DeviceUserData} :
    activating w (lastRun q (s.cusr n)) = x :: xs ↔
      xs = [] ∧ x.port = q ∧ UserTrack.Addable (w.get x.username) ∧
        ∃ l l', s.cusr n = l ++ x :: l' ∧ NotOn q l' := by
  constructor
  · intro hrun
    rcases notOn_or_last q (s.cusr n) with hnot | ⟨l, e, l', hsplit, rfl, hnot⟩
    · have hcut : ∀ x ∈ s.cusr n, utText x.port ≠ q := by
        intro x hx
        rw [(h.names n x hx).2]
        exact hnot x hx
      rw [← List.nil_append (s.cusr n), lastRun_append hcut] at hrun
      contradiction
    · have hname := (h.names n e (by simp [hsplit])).1
      rw [h.lastRun_eq hsplit hnot, activating_singleton, hname] at hrun
      rcases hrun with ⟨haddable, hcons⟩ | ⟨-, hnil⟩
      · obtain ⟨rfl, rfl⟩ := List.cons_eq_cons.mp hcons
        exact ⟨rfl, rfl, haddable, l, l', hsplit, hnot⟩
      · contradiction
  · rintro ⟨rfl, rfl, haddable, l, l', hsplit, hnot⟩
    have hname := (h.names n x (by simp [hsplit])).1
    rw [h.lastRun_eq hsplit hnot, activating_singleton, hname]
    exact .inl ⟨haddable, rfl⟩

/-- Two entries of a device with the same name and port are one, in one place. -/
theorem TextsFit.eq_of_same {s : UserTrack} (h : TextsFit s) {n : Bytes}
    {l l' m m' : List DeviceUserData} {e x : DeviceUserData} (hsplit : s.cusr n = l ++ e :: l')
    (hsplit' : s.cusr n = m ++ x :: m') (hu : x.username = e.username) (hp : x.port = e.port) :
    x = e ∧ m' = l' := by
  have he : e ∈ s.cusr n := by simp [hsplit]
  have hx : x ∈ s.cusr n := by simp [hsplit']
  obtain rfl := List.inj_on_of_nodup_map (h.once n) hx he (Prod.ext hu hp)
  have hnodup := (h.once n).of_map
  rw [hsplit, List.nodup_append', List.nodup_cons] at hnodup
  have hl : x ∉ l := fun hxl => hnodup.2.2 hxl List.mem_cons_self
  rw [hsplit'] at hsplit
  have hparts := (List.append_cons_inj_of_notMem hl hnodup.2.1.1).mp hsplit.symm
  exact ⟨rfl, hparts.2.2.symm⟩

/-- **The condition on a table without cut texts**: the active entries are the last ones on
their ports, of users who can be added, on the devices that are sent. -/
theorem resyncOk_iff_of_fits {w : World} {s : UserTrack} (h : TextsFit s)
    (status : Bytes → Bool) :
    ResyncOk w s status ↔ ∀ n l e l', s.cusr n = l ++ e :: l' →
      (e.active = true ↔
        n ∈ s.sentDevices ∧ NotOn e.port l' ∧ UserTrack.Addable (w.get e.username)) := by
  have harrived : ∀ n q x xs, activating w (lastRun q (s.arrived status n)) = x :: xs ↔
      n ∈ s.sentDevices ∧ activating w (lastRun q (s.cusr n)) = x :: xs := by
    intro n q x xs
    rw [h.arrived_eq]
    by_cases hn : n ∈ s.sentDevices
    · simp [hn]
    · simp [hn, lastRun, activating]
  constructor
  · intro hok n l e l' hsplit
    have hmem : e ∈ s.cusr n := by simp [hsplit]
    constructor
    · intro hact
      obtain ⟨x, xs, hrun, hxu, -⟩ := hok.all n e hmem hact
      obtain ⟨hn, hrun⟩ := (harrived n e.port x xs).mp hrun
      obtain ⟨rfl, hp, haddable, m, m', hsplit', hnot⟩ := h.activating_iff.mp hrun
      rw [(h.names n x (by simp [hsplit'])).1] at hxu
      obtain ⟨rfl, rfl⟩ := h.eq_of_same hsplit hsplit' hxu hp
      exact ⟨hn, hnot, haddable⟩
    · rintro ⟨hn, hnot, haddable⟩
      have hrun := h.activating_iff.mpr ⟨rfl, rfl, haddable, l, l', hsplit, hnot⟩
      obtain ⟨x, hx, hact, hu, hp⟩ := hok.only n (UserTrack.known_of_mem_cusr hmem) e.port e []
        ((harrived n e.port e []).mpr ⟨hn, hrun⟩)
      rw [(h.names n e hmem).1] at hu
      obtain ⟨m, m', hsplit'⟩ := List.append_of_mem hx
      obtain ⟨rfl, -⟩ := h.eq_of_same hsplit hsplit' hu hp
      exact hact
  · intro hall
    constructor
    · intro n hknown q x xs hrun
      obtain ⟨hn, hrun⟩ := (harrived n q x xs).mp hrun
      obtain ⟨rfl, rfl, haddable, l, l', hsplit, hnot⟩ := h.activating_iff.mp hrun
      have hmem : x ∈ s.cusr n := by simp [hsplit]
      exact ⟨x, hmem, (hall n l x l' hsplit).mpr ⟨hn, hnot, haddable⟩,
        (h.names n x hmem).1.symm, rfl⟩
    · intro n e hmem hact
      obtain ⟨l, l', hsplit⟩ := List.append_of_mem hmem
      obtain ⟨hn, hnot, haddable⟩ := (hall n l e l' hsplit).mp hact
      have hrun := h.activating_iff.mpr ⟨rfl, rfl, haddable, l, l', hsplit, hnot⟩
      refine ⟨e, [], (harrived n e.port e []).mpr ⟨hn, hrun⟩, (h.names n e hmem).1, ?_⟩
      rw [addrOf_cons, h.addresses n e hmem]
      by_cases ha : e.useraddr = unknownIp
      · simp [ha, addrOf]
      · simp [ha]

/-! ## Resynchronisation -/

open UserTrack in
/-- **Resynchronisation** carries the activity over exactly from the tables where the last
user who arrives on a port is active when he can be added, and nobody else is active. -/
theorem resync_iff {w : World} {s r : UserTrack} (hjoin : Joining w s r) {status : Bytes → Bool}
    {ws : List (World × TipPacket)} (hws : ws.map Prod.snd = s.answer status)
    (hdb : ∀ x ∈ ws, x.1.db = w.db) : Preserved s (r.receiveAll ws) ↔ ResyncOk w s status := by
  have hstands := stands_receiveAll hjoin hws hdb
  have hknown : ∀ n, ∀ x ∈ (r.receiveAll ws).cusr n, s.device.known n = true := by
    intro n x hx
    rw [← hstands.devices n]
    exact known_of_mem_cusr hx
  constructor
  · intro hpres
    constructor
    · intro n hn q x xs hrun
      obtain ⟨y, hy, hact, hu, hq, -⟩ := (hstands.active_iff hn).mpr ⟨x, xs, hrun, rfl, rfl⟩
      rw [← hu, ← hq]
      exact hpres.only n y hy hact
    · intro n e he hact
      exact (hstands.active_iff (known_of_mem_cusr he)).mp (hpres.all n e he hact)
  · intro hok
    constructor
    · intro n x hx hact
      obtain ⟨y, ys, hrun, hyu, -⟩ :=
        (hstands.active_iff (hknown n x hx)).mp ⟨x, hx, hact, rfl, rfl, rfl⟩
      rw [← hyu]
      exact hok.only n (hknown n x hx) x.port y ys hrun
    · intro n e he hact
      exact (hstands.active_iff (known_of_mem_cusr he)).mpr (hok.all n e he hact)

/-- `ann` can be added, on a server with one device. -/
def annWorld : World := { openWorld with db := fun _ => { openUser [] [] [] with openTime := 1 } }

/-- A server that joins. -/
def oneDevice : UserTrack :=
  { UserTrack.empty with device := CoreDevice.empty.add (str "10.0.0.1") }

/-- `ann` and `bob` have started on the active server. -/
def bothStarted : UserTrack :=
  ((oneDevice.add annWorld (str "ann") (str "10.0.0.1") (str "As1") [] (str "10.0.1.1")).2.add
    annWorld (str "bob") (str "10.0.0.1") (str "As2") [] (str "10.0.1.2")).2

/-- `ann` has only logged in. -/
def annLoggedIn : UserTrack :=
  (oneDevice.get2add annWorld (str "ann") (str "10.0.0.1") (str "As1") []).2

theorem cusr_oneDevice (n : Bytes) : oneDevice.cusr n = [] :=
  CoreDevice.cusr_add CoreDevice.empty (str "10.0.0.1") n

theorem agrees_oneDevice (w : World) : oneDevice.Agrees w where
  cached x hx := by
    contradiction
  stored u hu := by
    contradiction

/-- Both are active on the server that joins. -/
theorem resync_bothStarted :
    Preserved bothStarted (oneDevice.receiveAll
      ((bothStarted.answer fun _ => true).map fun pak => (annWorld, pak))) := by
  have hjoin : Joining annWorld bothStarted oneDevice :=
    ⟨fun n => ((UserTrack.known_add n).trans (UserTrack.known_add n)).symm, cusr_oneDevice,
      agrees_oneDevice annWorld⟩
  have hws : ((bothStarted.answer fun _ => true).map fun pak => (annWorld, pak)).map Prod.snd =
      bothStarted.answer fun _ => true := by
    rw [List.map_map]
    exact List.map_id _
  exact (resync_iff hjoin hws (by simp)).mpr (by decide +kernel)

/-- The login of `ann` comes up as an active entry on the server that joins. -/
theorem resync_activates_login :
    ¬ ∀ (w : World) (s r : UserTrack) (status : Bytes → Bool) (ws : List (World × TipPacket)),
      Joining w s r → ws.map Prod.snd = s.answer status → (∀ x ∈ ws, x.1.db = w.db) →
        Preserved s (r.receiveAll ws) := by
  intro hclaim
  have hjoin : Joining annWorld annLoggedIn oneDevice :=
    ⟨fun n => (UserTrack.known_get2add _ _ _ _ _ _ n).symm, cusr_oneDevice,
      agrees_oneDevice annWorld⟩
  have hpres := hclaim annWorld annLoggedIn oneDevice (fun _ => true)
    ((annLoggedIn.answer fun _ => true).map fun pak => (annWorld, pak)) hjoin (by decide +kernel)
    (by simp)
  have hactive : ∃ x ∈ (oneDevice.receiveAll ((annLoggedIn.answer fun _ => true).map
      fun pak => (annWorld, pak))).cusr (str "10.0.0.1"), x.active = true := by
    decide +kernel
  obtain ⟨x, hx, hact⟩ := hactive
  obtain ⟨e, he, heact, -⟩ := hpres.only _ x hx hact
  have hinactive : ∀ e ∈ annLoggedIn.cusr (str "10.0.0.1"), e.active = false := by
    decide +kernel
  rw [hinactive e he] at heact
  contradiction

end Tacppd
