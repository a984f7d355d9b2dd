/-
# A connection and its sessions

The loop in the constructor of `TacacsPacketReader`: the device is looked up once, and
then every packet of the connection goes to the session with its id, a new one when
there is none yet.  The two buffers of the loop are freed and cleared at the end of
each round, so that a round leaves nothing but the session list.

The loop refines the machine that runs all sessions side by side, and from this the
isolation of the sessions follows.
-/
import Tacppd.Lib.Multiplex
import Tacppd.Session

namespace Tacppd

/-! ## The loop -/

/-- What the loop takes from the device of the peer, class `Device_data`. -/
structure DeviceSettings where
  hostaddr : Bytes
  loginstring : Bytes
  pwdstring : Bytes
  tacKey : Bytes
  defAuthor : Bool
  hostaddr_fits : hostaddr.length < ipLen

theorem length_snprintf_lt {n : ℕ} (hn : 0 < n) (s : Bytes) : (snprintf n s).length < n := by
  rw [snprintf, List.length_take]
  omega

/-- What a session of this device is created with; the texts are cut to the buffers
`l`, `p` and `key`. -/
def DeviceSettings.session (d : DeviceSettings) (sess : UInt32) : SessionConfig where
  sessionId := sess
  key := snprintf 100 d.tacKey
  peer := d.hostaddr
  loginstring := snprintf 100 d.loginstring
  pwdstring := snprintf 100 d.pwdstring
  authoriz := d.defAuthor
  loginstring_fits := length_snprintf_lt (by decide) _
  pwdstring_fits := length_snprintf_lt (by decide) _
  peer_fits := d.hostaddr_fits

/-- The list `tacacsSessionQueue_`.  Peer and socket are the same for all sessions of a
connection, so they are told apart by their id. -/
abbrev TacacsSessionQueue := List (UInt32 × TacacsSessionContainer)

section

variable (md5 : Bytes → Digest) (d : DeviceSettings)

/-- The search for the session of a packet, and its creation. -/
def TacacsSessionQueue.find (queue : TacacsSessionQueue) (sess : UInt32) :
    TacacsSessionContainer × TacacsSessionQueue :=
  match queue.lookup sess with
  | some tmp => (tmp, queue)
  | none =>
    let tmp := (d.session sess).new
    (tmp, queue ++ [(sess, tmp)])

/-- One round of the loop.  A packet that is not accepted ends all sessions of the
connection. -/
def TacacsSessionQueue.round (queue : TacacsSessionQueue) (i : Input) :
    Except Stop (TacacsSessionQueue × Processed) :=
  let sess := i.hdr.sessionId
  let found := queue.find d sess
  match found.1.receive md5 (d.session sess) i with
  | .error stop => .error stop
  | .ok (tmp, o) => .ok (Machine.tableSet sess tmp found.2, o)

/-- A connection as a machine. -/
def connection : Machine TacacsSessionQueue Input Processed Stop where
  init := []
  step := fun queue i => queue.round md5 d i

end

/-! ## Isolation -/

/-- The session a packet belongs to. -/
def Input.session (i : Input) : UInt32 := i.hdr.sessionId

/-- The sessions of a device, each as a machine of its own. -/
def sessions (md5 : Bytes → Digest) (d : DeviceSettings) (sess : UInt32) :
    Machine TacacsSessionContainer Input Processed Stop :=
  session md5 (d.session sess)

section

variable (md5 : Bytes → Digest) (d : DeviceSettings) {queue queue' : TacacsSessionQueue}

/-- What the search leaves: the session's state, which stands in the list now, and the
same states as before. -/
theorem find_spec (queue : TacacsSessionQueue) (sess : UInt32) :
    (queue.find d sess).1 = Machine.tableState (sessions md5 d) queue sess ∧
      ((queue.find d sess).2.lookup sess).isSome = true ∧
      Machine.tableState (sessions md5 d) (queue.find d sess).2 =
        Machine.tableState (sessions md5 d) queue := by
  unfold TacacsSessionQueue.find
  split
  · next tmp hfound =>
    refine ⟨?_, ?_, rfl⟩
    · show tmp = (queue.lookup sess).getD _
      rw [hfound]
      rfl
    · show (queue.lookup sess).isSome = true
      rw [hfound]
      rfl
  · next hnone =>
    refine ⟨?_, ?_, ?_⟩
    · show (d.session sess).new = (queue.lookup sess).getD _
      rw [hnone]
      rfl
    · show ((queue ++ [(sess, (d.session sess).new)]).lookup sess).isSome = true
      simp [List.lookup_append]
    · exact Machine.tableState_append_init (sessions md5 d) hnone

/-- **A round of the loop is a step of one session**, and the other sessions stay as
they are. -/
theorem round_ok {i : Input} {o : Processed} (h : queue.round md5 d i = .ok (queue', o)) :
    (Machine.multiplex (sessions md5 d) Input.session).step
        (Machine.tableState (sessions md5 d) queue) i =
      .ok (Machine.tableState (sessions md5 d) queue', o) := by
  obtain ⟨hstate, hsome, hsame⟩ := find_spec md5 d queue i.hdr.sessionId
  unfold TacacsSessionQueue.round at h
  simp only at h
  split at h
  · contradiction
  · next tmp o' hreceive =>
    obtain ⟨rfl, rfl⟩ := Prod.mk.inj (Except.ok.inj h)
    rw [Machine.tableState_set _ hsome, hsame]
    have hstep : (sessions md5 d i.session).step
        (Machine.tableState (sessions md5 d) queue i.session) i = .ok (tmp, o') := by
      show TacacsSessionContainer.receive md5 _ (Machine.tableState _ queue i.hdr.sessionId) i = _
      rw [← hstate]
      exact hreceive
    simp only [Machine.multiplex, hstep]
    rfl

/-- The runs of the loop are runs of the sessions side by side. -/
theorem connection_multiplex {h : List (Input × Processed)}
    (hr : (connection md5 d).Reaches h queue) :
    ∃ f, (Machine.multiplex (sessions md5 d) Input.session).Reaches h f ∧
      Machine.tableState (sessions md5 d) queue = f := by
  refine hr.simulate _ _ (R := fun queue f => Machine.tableState (sessions md5 d) queue = f) rfl ?_
  rintro queue _ i queue' o rfl hstep
  exact ⟨_, round_ok md5 d hstep, rfl⟩

end

/-- **Session isolation.**  Whatever packets come on a connection, in whatever order and
of whatever types: the packets of one session that are accepted get the replies they
get when they come alone. -/
theorem connection_isolated (md5 : Bytes → Digest) (d : DeviceSettings) (as : List Input)
    (sess : UInt32) :
    let h := (connection md5 d).history as
    (session md5 (d.session sess)).history
        ((h.map Prod.fst).filter fun i => decide (i.hdr.sessionId = sess)) =
      h.filter fun x => decide (x.1.hdr.sessionId = sess) := by
  intro h
  obtain ⟨f, hf, -⟩ := connection_multiplex md5 d (Machine.reaches_history _ as)
  exact hf.isolated _ _ sess

end Tacppd
