/-
# What is behind a PASS

A session of authentication packets: the user name comes with the START packet or with
the first CONTINUE packet, and it stays.  Whenever the server answers PASS to a login
or an enable request, it has in the same step checked that user with what the packet
supplies, and `db_authentication` has said yes.

The invariant is `NamedUser`.  It needs the sequence numbers: a user name is only read
at numbers up to 4, so a second CONTINUE packet must find the counter beyond them.
-/
import Mathlib.Data.List.GetD
import Tacppd.SessionSeq

namespace Tacppd

/-! ## The zero bytes after a body -/

theorem getD_append_zeros (body : Bytes) (k n : ℕ) :
    (body ++ List.replicate k 0).getD n 0 = body.getD n 0 := by
  rcases Nat.lt_or_ge n body.length with hn | hn
  · rw [List.getD_append _ _ _ _ hn]
  · rw [List.getD_append_right _ _ _ _ hn, List.getD_eq_default body 0 hn]
    rcases Nat.lt_or_ge (n - body.length) k with hk | hk
    · exact List.getD_replicate 0 hk
    · exact List.getD_eq_default _ _ (by simpa using hk)

@[simp] theorem field_append_zeros (body : Bytes) (k off len : ℕ) :
    field (body ++ List.replicate k 0) off len = field body off len :=
  cstr_field_append_zeros body k off len

@[simp] theorem ntohs_append_zeros (body : Bytes) (k off : ℕ) :
    ntohs (body ++ List.replicate k 0) off = ntohs body off := by
  simp only [ntohs, getD_append_zeros]

@[simp] theorem startUser_append_zeros (body : Bytes) (k : ℕ) :
    startUser (body ++ List.replicate k 0) = startUser body := by
  simp only [startUser, getD_append_zeros, field_append_zeros]

@[simp] theorem startData_append_zeros (body : Bytes) (k : ℕ) :
    startData (body ++ List.replicate k 0) = startData body := by
  simp only [startData, getD_append_zeros, field_append_zeros]

@[simp] theorem contMsg_append_zeros (body : Bytes) (k : ℕ) :
    contMsg (body ++ List.replicate k 0) = contMsg body := by
  simp only [contMsg, ntohs_append_zeros, field_append_zeros]

theorem contReadable_append_zeros (hdr : Hdr) (body : Bytes) (k : ℕ) :
    contReadable hdr (body ++ List.replicate k 0) ↔ contReadable hdr body := by
  simp only [contReadable, ntohs_append_zeros]

@[simp] theorem contUser_append_zeros (hdr : Hdr) (body : Bytes) (k : ℕ) :
    contUser hdr (body ++ List.replicate k 0) = contUser hdr body := by
  have hiff := contReadable_append_zeros hdr body k
  unfold contUser
  by_cases hread : contReadable hdr body
  · rw [if_pos hread, if_pos (hiff.mpr hread), contMsg_append_zeros]
  · rw [if_neg hread, if_neg (fun h => hread (hiff.mp h))]

/-! ## What the client sends -/

/-- A reply packet with the status PASS. -/
def Sent.isPass (p : Sent) : Prop :=
  p.hdr.type = PacketType.authen.code ∧ p.body.head? = some AuthenStatus.pass.code

section

variable (md5 : Bytes → Digest) (cfg : SessionConfig)

/-- The body of a packet in clear, as the key of the session gives it. -/
def SessionConfig.clear (i : Input) : Bytes := cfg.packet.decrypt md5 i

/-- The packets ask for a login, as far as this is decided by the first of them: it is
no SENDPASS request. -/
def SessionConfig.notSendpass (is : List Input) : Prop :=
  ∀ i, is.head? = some i → (cfg.clear md5 i).getD 0 0 ≠ tacPlusAuthenSendpass

/-- The user name of a session: the one in the START packet, or else the one in the
first CONTINUE packet. -/
def SessionConfig.user : List Input → Bytes
  | [] => []
  | [i] => startUser (cfg.clear md5 i)
  | i :: j :: _ =>
    if startUser (cfg.clear md5 i) ≠ [] then startUser (cfg.clear md5 i)
    else contUser j.hdr (cfg.clear md5 j)

/-- The secret in the last of the packets, after `before`: the data of a START packet,
or the user message of a CONTINUE packet. -/
def SessionConfig.secret (before : List Input) (i : Input) : Bytes :=
  if before = [] then startData (cfg.clear md5 i) else contMsg (cfg.clear md5 i)

end

/-- The packets that have been received. -/
def inputs (h : List (Input × Processed)) : List Input := h.map Prod.fst

@[simp] theorem inputs_append_singleton (h : List (Input × Processed)) (x : Input × Processed) :
    inputs (h ++ [x]) = inputs h ++ [x.1] := by
  simp [inputs]

/-- All packets are authentication packets. -/
def AllAuthen (is : List Input) : Prop := ∀ i ∈ is, selector i.hdr = some .authen

/-! ## One authentication packet -/

section

variable {md5 : Bytes → Digest} {cfg : SessionConfig} {h : List (Input × Processed)}
  {s s' : TacacsSessionContainer} {i : Input} {o : Processed} {r : Reaction} {pak : Bytes}

/-- The authentication handler, a new one before the first packet. -/
def TacacsSessionContainer.handler (s : TacacsSessionContainer) : TacacsServerAuthentication :=
  s.tacAuthen.getD TacacsServerAuthentication.new

theorem AuthenStatus.code_injective : Function.Injective AuthenStatus.code := by
  intro a b hab
  cases a <;> cases b <;> first | rfl | contradiction

/-- What an authentication packet comes to in a session. -/
structure Authenticated (md5 : Bytes → Digest) (cfg : SessionConfig) (s : TacacsSessionContainer)
    (i : Input) (s' : TacacsSessionContainer) (out : Processed) (o : AuthenOutcome) : Prop where
  outcome : processAuthen md5 i.env cfg.loginstring cfg.pwdstring s.handler cfg.peer
    (s.tac.seqNo + 1) i.hdr (s.tac.decrypt md5 i ++ List.replicate 15 0) = some o
  handler : s'.handler = o.authen
  call : out.call = o.call
  answered : o.reply.isSome = true → s'.tac.seqNo = s.tac.seqNo + 2
  pass : (∃ p ∈ out.replies, p.isPass) → ∃ a, o.reply = some a ∧ a.status = .pass

theorem authen_ok (h : s.authen md5 cfg i pak = some r) :
    ∃ o, processAuthen md5 i.env cfg.loginstring cfg.pwdstring s.handler cfg.peer s.tac.seqNo
        i.hdr pak = some o ∧ r.tacAuthen = some o.authen ∧ r.call = o.call ∧
      (o.reply.isSome = true → r.replies.length = 1) ∧
      ((∃ q ∈ r.replies, q.body.head? = some AuthenStatus.pass.code) →
        ∃ a, o.reply = some a ∧ a.status = .pass) := by
  unfold TacacsSessionContainer.authen at h
  split at h
  · contradiction
  · next o ho =>
    split at h
    · next hnone =>
      obtain rfl := Option.some.inj h
      refine ⟨o, ho, rfl, rfl, ?_, ?_⟩
      · rw [hnone]
        simp
      · simp
    · next a ha =>
      split at h
      · contradiction
      · next reply hreply =>
        obtain rfl := Option.some.inj h
        refine ⟨o, ho, rfl, rfl, fun _ => rfl, ?_⟩
        rintro ⟨q, hq, hcode⟩
        obtain rfl := List.mem_singleton.mp hq
        obtain ⟨rfl, -⟩ := inReplyBuf_eq_some hreply
        exact ⟨a, ha, AuthenStatus.code_injective (Option.some.inj hcode)⟩

theorem Received.authenticated (hs : Received md5 cfg s i s' o r)
    (htype : selector i.hdr = some .authen) : ∃ out, Authenticated md5 cfg s i s' o out := by
  have hreact := hs.react
  unfold TacacsSessionContainer.react at hreact
  rw [htype] at hreact
  obtain ⟨out, hout, hhandler, hcall, hanswered, hpass⟩ := authen_ok hreact
  refine ⟨out, hout, ?_, ?_, ?_, ?_⟩
  · rw [hs.state]
    show r.tacAuthen.getD _ = out.authen
    rw [hhandler]
    rfl
  · rw [hs.out]
    exact hcall
  · intro hsome
    rw [hs.seqNo, hs.length_replies, hanswered hsome]
  · rintro ⟨p, hp, -, hbody⟩
    apply hpass
    rw [hs.out] at hp
    -- the packet that is sent has the body of a reply
    have hmem : p.body ∈ r.replies.map (·.body) := by
      have hbodies := (s.tac.accept i).sendAll_bodies md5 r.replies
      have hsnd := congrArg (List.map Prod.snd) hbodies
      rw [List.map_map, List.map_map] at hsnd
      show p.body ∈ r.replies.map (Prod.snd ∘ fun r => (r.type.code, r.body))
      rw [← hsnd]
      exact List.mem_map.mpr ⟨p, hp, rfl⟩
    obtain ⟨q, hq, heq⟩ := List.mem_map.mp hmem
    exact ⟨q, hq, by rw [heq, hbody]⟩

/-! ## The invariant -/

/-- The user of a session stays when another packet comes, once there is one or both
places for it are past. -/
theorem user_append (is : List Input) (i : Input)
    (h : 2 ≤ is.length ∨ cfg.user md5 is ≠ []) :
    cfg.user md5 (is ++ [i]) = cfg.user md5 is := by
  rcases is with _ | ⟨x, _ | ⟨y, rest⟩⟩
  · simp [SessionConfig.user] at h
  · have hne : startUser (cfg.clear md5 x) ≠ [] := by
      simpa [SessionConfig.user] using h
    show (if _ then _ else _) = startUser (cfg.clear md5 x)
    rw [if_pos hne]
  · rfl

/-- The recorded authentication packets and the session after them. -/
structure NamedUser (md5 : Bytes → Digest) (cfg : SessionConfig) (h : List (Input × Processed))
    (s : TacacsSessionContainer) : Prop where
  key : s.tac.key = cfg.key
  started : s.tac.seqNo = 0 ↔ h = []
  user : s.handler.goesOn = true → s.handler.user = cfg.user md5 (inputs h)
  first : h.length = 1 → s.handler.goesOn = true → s.tac.seqNo = 2
  unnamed : 2 ≤ h.length → s.handler.goesOn = true → s.handler.user = [] → 4 ≤ s.tac.seqNo

theorem namedUser_init : NamedUser md5 cfg [] cfg.new where
  key := rfl
  started := iff_of_true rfl rfl
  user := by intro hgo; contradiction
  first := by simp
  unnamed := by simp

/-- The handler keeps the user and the request at this packet, and has the user that
the session will have. -/
structure Kept (md5 : Bytes → Digest) (cfg : SessionConfig) (h : List (Input × Processed))
    (s : TacacsSessionContainer) (i : Input) : Prop where
  user : cfg.user md5 (inputs h ++ [i]) = s.handler.user
  late : s.handler.user = [] → 4 ≤ s.tac.seqNo

/-- The stage a packet of an authentication session comes to. -/
inductive Stage (md5 : Bytes → Digest) (cfg : SessionConfig) (h : List (Input × Processed))
    (s : TacacsSessionContainer) (i : Input) (out : AuthenOutcome) : Prop
  | start (nil : h = []) (outcome : processStart md5 i.env cfg.loginstring cfg.pwdstring s.handler
      cfg.peer i.hdr (cfg.clear md5 i ++ List.replicate 15 0) = some out)
  | user (x : Input) (one : inputs h = [x]) (empty : startUser (cfg.clear md5 x) = [])
      (seqNo : s.tac.seqNo = 2) (none : s.handler.user = [])
      (outcome : userStage md5 i.env cfg.pwdstring s.handler i.hdr
        (cfg.clear md5 i ++ List.replicate 15 0) = some out)
  | password (ne : h ≠ []) (kept : Kept md5 cfg h s i)
      (outcome : passwordStage md5 i.env s.handler i.hdr
        (cfg.clear md5 i ++ List.replicate 15 0) = some out)
  | silent (ne : h ≠ []) (kept : s.handler.goesOn = true → Kept md5 cfg h s i)
      (outcome : out = ⟨s.handler, none, none⟩)

/-- A packet behind the first that is not read for its user name. -/
theorem NamedUser.kept (inv : NamedUser md5 cfg h s) (hne : h ≠ []) (hgo : s.handler.goesOn = true)
    (hlate : s.handler.user = [] → 5 ≤ s.tac.seqNo + 1) (i : Input) : Kept md5 cfg h s i := by
  refine ⟨?_, fun hnil => by have := hlate hnil; omega⟩
  rw [inv.user hgo]
  apply user_append
  -- after one packet only: the counter is at 2, so this packet's number is 3
  by_cases hlen : 2 ≤ h.length
  · left
    simpa [inputs] using hlen
  · right
    have hone : h.length = 1 := by
      have := List.length_pos_iff.mpr hne
      omega
    have hseq := inv.first hone hgo
    intro hnil
    have := hlate ((inv.user hgo).trans hnil)
    omega

theorem NamedUser.stage (inv : NamedUser md5 cfg h s) {out : AuthenOutcome}
    (ha : Authenticated md5 cfg s i s' o out) : Stage md5 cfg h s i out := by
  have hclear : s.tac.decrypt md5 i = cfg.clear md5 i := TacacsPacket.decrypt_congr md5 inv.key i
  have hout := ha.outcome
  rw [hclear] at hout
  by_cases hnil : h = []
  · rw [inv.started.mpr hnil] at hout
    exact .start hnil hout
  · have hpos : 1 ≤ s.tac.seqNo := by
      have := mt inv.started.mp hnil
      omega
    rcases processAuthen_later (by omega) hout with
      ⟨hgo, huser, hseq, hstage⟩ | ⟨hgo, hlate, -, hstage⟩ | ⟨hlate, hsilent⟩
    · -- with two packets behind it the counter would be past the user name
      have hone : h.length = 1 := by
        have hlen := List.length_pos_iff.mpr hnil
        by_contra hmore
        have := inv.unnamed (by omega) hgo huser
        omega
      obtain ⟨x, rfl⟩ := List.length_eq_one_iff.mp hone
      have hempty := inv.user hgo
      rw [huser] at hempty
      exact .user x.1 rfl hempty.symm (inv.first hone hgo) huser hstage
    · exact .password hnil (inv.kept hnil hgo hlate i) hstage
    · refine .silent hnil (fun hgo => ?_) hsilent
      have hlate := hlate hgo
      exact inv.kept hnil hgo (fun _ => by omega) i

/-- The user after a packet, and how far the counter is when there is none. -/
theorem Stage.next {out : AuthenOutcome} (hstage : Stage md5 cfg h s i out)
    (ha : Authenticated md5 cfg s i s' o out) (hs : Received md5 cfg s i s' o r)
    (hgo : out.authen.goesOn = true) :
    out.authen.user = cfg.user md5 (inputs h ++ [i]) ∧
      (h = [] → out.reply.isSome = true) ∧
      (h ≠ [] → out.authen.user = [] → 4 ≤ s'.tac.seqNo) := by
  have hseq := hs.seqNo
  -- one case for each stage; only the first two can change the user
  cases hstage with
  | start hnil hout =>
    obtain ⟨huser, hreply⟩ := (processStart_ok hout).2 hgo
    refine ⟨?_, fun _ => hreply, fun hne => absurd hnil hne⟩
    rw [huser, hnil, startUser_append_zeros]
    rfl
  | user x hone hempty hnum hnone hout =>
    obtain ⟨huser, hreply⟩ := (userStage_ok hout).2 hnone
    have hanswered := ha.answered hreply
    refine ⟨?_, fun _ => hreply, fun _ _ => by omega⟩
    rw [huser, hone, contUser_append_zeros]
    show _ = if _ then _ else _
    rw [if_neg (not_not.mpr hempty)]
  | password hne hkept hout =>
    have huser := (passwordStage_ok hout).2
    refine ⟨huser.trans hkept.user.symm, fun hnil => absurd hnil hne, fun _ hnil => ?_⟩
    have := hkept.late (huser.symm.trans hnil)
    omega
  | silent hne hkept hout =>
    subst hout
    have hkept := hkept hgo
    refine ⟨hkept.user.symm, fun hnil => absurd hnil hne, fun _ hnil => ?_⟩
    have := hkept.late hnil
    omega

/-- **An authentication packet keeps the invariant.** -/
theorem NamedUser.step (inv : NamedUser md5 cfg h s) (hs : Received md5 cfg s i s' o r)
    (htype : selector i.hdr = some .authen) : NamedUser md5 cfg (h ++ [(i, o)]) s' := by
  obtain ⟨out, ha⟩ := hs.authenticated htype
  have hstage := inv.stage ha
  have hseq := hs.seqNo
  refine ⟨hs.key.trans inv.key, ?_, ?_, ?_, ?_⟩
  · exact iff_of_false (by omega) (by simp)
  · intro hgo
    rw [ha.handler] at hgo ⊢
    rw [inputs_append_singleton]
    exact (hstage.next ha hs hgo).1
  · intro hlen hgo
    have hnil : h = [] := by simpa using hlen
    rw [ha.handler] at hgo
    have hanswered := ha.answered ((hstage.next ha hs hgo).2.1 hnil)
    rw [hanswered, inv.started.mpr hnil]
  · intro hlen hgo hnone
    have hne : h ≠ [] := by
      rintro rfl
      simp at hlen
    rw [ha.handler] at hgo hnone
    exact (hstage.next ha hs hgo).2.2 hne hnone

/-- Every run of authentication packets keeps the invariant. -/
theorem namedUser (hr : (session md5 cfg).Reaches h s) (htypes : AllAuthen (inputs h)) :
    NamedUser md5 cfg h s := by
  revert htypes
  refine hr.invariant (I := fun h s => AllAuthen (inputs h) → NamedUser md5 cfg h s) _ ?_ ?_
  · intro _
    exact namedUser_init
  · intro h s i s' o _ inv hstep htypes
    obtain ⟨r, hs⟩ := receive_ok hstep
    rw [inputs_append_singleton] at htypes
    have hinv := inv (fun x hx => htypes x (List.mem_append_left _ hx))
    exact hinv.step hs (htypes i (by simp))

/-! ## What is behind a PASS -/

/-- A PASS at any stage has its check, made for the user of the session and with the
secret in the packet. -/
theorem Stage.pass {out : AuthenOutcome} (hstage : Stage md5 cfg h s i out)
    (hlogin : cfg.notSendpass md5 (inputs h ++ [i])) {a : AuthenReply} (ha : out.reply = some a)
    (hpass : a.status = .pass) :
    CheckedFor md5 i.env out (cfg.user md5 (inputs h ++ [i])) (cfg.secret md5 (inputs h) i) := by
  cases hstage with
  | start hnil hout =>
    subst hnil
    have haction : (cfg.clear md5 i ++ List.replicate 15 0).getD 0 0 ≠ tacPlusAuthenSendpass := by
      rw [getD_append_zeros]
      exact hlogin i rfl
    have hchecked := ((processStart_ok hout).1 haction).pass ha hpass
    rw [startUser_append_zeros, startData_append_zeros] at hchecked
    exact hchecked
  | user x hone hempty hnum hnone hout =>
    have hchecked := (userStage_ok hout).1.pass ha hpass
    rw [contUser_append_zeros, contMsg_append_zeros] at hchecked
    rw [hone]
    show CheckedFor md5 i.env out (if _ then _ else _) _
    rw [if_neg (not_not.mpr hempty)]
    exact hchecked
  | password hne hkept hout =>
    have hchecked := (passwordStage_ok hout).1.pass ha hpass
    rw [contMsg_append_zeros, ← hkept.user] at hchecked
    have hinputs : inputs h ≠ [] := by simpa [inputs] using hne
    rw [SessionConfig.secret, if_neg hinputs]
    exact hchecked
  | silent hne hkept hout =>
    subst hout
    contradiction

end

/-- **Authentication soundness.**  In every run of a session on authentication packets,
whatever is in them: when a step sends PASS, and the first packet was no SENDPASS
request, then in this step `db_authentication` has returned true, for the user name of
the session and for the secret in the packet or the nopassword probe. -/
theorem session_pass (md5 : Bytes → Digest) (cfg : SessionConfig) (as : List Input)
    (htypes : AllAuthen as) (pre post : List (Input × Processed)) (x : Input × Processed)
    (hh : (session md5 cfg).history as = pre ++ x :: post)
    (hlogin : cfg.notSendpass md5 (inputs pre ++ [x.1])) (hpass : ∃ p ∈ x.2.replies, p.isPass) :
    ∃ call, x.2.call = some (call, true) ∧ dbAuthentication md5 x.1.env call = true ∧
      call.user = cfg.user md5 (inputs pre ++ [x.1]) ∧
      SuppliesSecret call (cfg.secret md5 (inputs pre) x.1) := by
  have hr : (session md5 cfg).Reaches _ _ := Machine.reaches_history _ as
  have hfirst := (session md5 cfg).history_inputs as
  rw [hh] at hr hfirst
  have hseen : ∀ y ∈ pre ++ x :: post, selector y.1.hdr = some .authen := by
    intro y hy
    exact htypes y.1 (hfirst.subset (List.mem_map.mpr ⟨y, hy, rfl⟩))
  obtain ⟨s₁, s₂, hpre, hstep⟩ := hr.of_append
  have htypes' : AllAuthen (inputs pre) := by
    intro i hi
    obtain ⟨y, hy, rfl⟩ := List.mem_map.mp hi
    exact hseen y (List.mem_append_left _ hy)
  have inv := namedUser hpre htypes'
  obtain ⟨r, hs⟩ := receive_ok hstep
  obtain ⟨out, ha⟩ := hs.authenticated (hseen x (by simp))
  obtain ⟨a, hreply, hstatus⟩ := ha.pass hpass
  obtain ⟨call, hcall, hrest⟩ := (inv.stage ha).pass hlogin hreply hstatus
  exact ⟨call, ha.call.trans hcall, hrest⟩

/-- A user without a password is let in by the nopassword probe. -/
theorem session_pass_bob :
    ∃ call, bobPassed.call = some (call, true) ∧
      dbAuthentication (fun _ => constDigest 0) bobLogin.env call = true ∧
      call.user = str "bob" ∧ SuppliesSecret call [] := by
  have htypes : AllAuthen [bobLogin] := by
    intro i hi
    obtain rfl := List.mem_singleton.mp hi
    decide
  have hlogin : clearSession.notSendpass (fun _ => constDigest 0) [bobLogin] := by
    intro i hi
    obtain rfl := Option.some.inj hi
    decide
  exact session_pass (fun _ => constDigest 0) clearSession [bobLogin] htypes [] []
    (bobLogin, bobPassed) history_bobLogin hlogin ⟨_, List.mem_singleton.mpr rfl, rfl, rfl⟩

end Tacppd
