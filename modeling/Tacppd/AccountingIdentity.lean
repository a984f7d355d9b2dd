/-
# The identity of an accounting record

The action, the user name, the port and the NAS address of a packet are the first
lines of the list that `db_accounting` reads; the AVPs of the client come after them
and are read the same way, so the last AVP with one of the four tags replaces what the
header says.

Each of the four fields holds the last value that is written to it (`logUser_get`): a
client's where there is one, and else the one of the header (`logUser_logavp`).
-/
import Tacppd.Accounting
import Tacppd.Session

namespace Tacppd

open Tagged

/-! ## The fields -/

/-- The tags of the table. -/
def acctTags : List Bytes :=
  [str "action=", str "user=", str "port=", str "from=", str "nas=", str "service=",
    str "protocol=", str "address=", str "addr=", str "bytes_in=", str "bytes_out=",
    str "elapsed_time=", str "disc-cause=", str "disc-cause-ext=", str "nas-rx-speed=",
    str "nas-tx-speed=", str "start_time=", str "task_id=", str "h323-call-origin=",
    str "h323-call-type=", str "h323-disconnect-cause=", str "h323-voice-quality=",
    str "h323-remote-address=", str "h323-connect-time=", str "h323-disconnect-time="]

theorem map_tag_acctFields [LongWidth] (env : AcctEnv) :
    (acctFields env).map Field.tag = acctTags := rfl

/-- No tag starts another one. -/
theorem acctFields_apart [LongWidth] (env : AcctEnv) :
    (acctFields env).Pairwise fun f g => Apart f.tag g.tag := by
  have htags : acctTags.Pairwise Apart := by decide +kernel
  rwa [← map_tag_acctFields env, List.pairwise_map] at htags

/-- The three actions. -/
theorem actionOf_cases {v : Bytes} {a : ℕ} (h : actionOf v = some a) : a = 1 ∨ a = 2 ∨ a = 3 := by
  rw [actionOf] at h
  repeat' split at h
  all_goals first
    | contradiction
    | cases h
  · exact Or.inl rfl
  · exact Or.inr (Or.inl rfl)
  · exact Or.inr (Or.inr rfl)

/-- A field that only the texts of one tag write. -/
structure OwnField [LongWidth] (env : AcctEnv) (f : Field UInt8 LogUser) {α : Type}
    (get : LogUser → α) (read : Bytes → Option α) : Prop where
  mem : f ∈ acctFields env
  set : ∀ l v, get (f.set l v) = (read v).getD (get l)
  other : ∀ g ∈ acctFields env, g.tag ≠ f.tag → ∀ l v, get (g.set l v) = get l

/-- **Such a field holds the last value written to it.** -/
theorem logUser_get [LongWidth] {env : AcctEnv} {f : Field UInt8 LogUser} {α : Type}
    {get : LogUser → α}
    {read : Bytes → Option α} (h : OwnField env f get read) (logavp : List Bytes) :
    get (logUser env logavp) = (lastWrite (written f.tag read) logavp).getD (get LogUser.new) := by
  refine get_foldl (fun l s => ?_) logavp LogUser.new
  exact get_assign (acctFields_apart env) h.mem h.set h.other l s

/-- The texts of a tag write the field of the tag and leave the identity otherwise. -/
theorem acctFields_other [LongWidth] {env : AcctEnv} {g : Field UInt8 LogUser}
    (hg : g ∈ acctFields env) (l : LogUser) (v : Bytes) :
    (g.tag ≠ str "action=" → (g.set l v).action = l.action) ∧
      (g.tag ≠ str "user=" → (g.set l v).username = l.username) ∧
      (g.tag ≠ str "port=" → (g.set l v).port = l.port) ∧
      (g.tag ≠ str "nas=" → (g.set l v).nas = l.nas) := by
  simp only [acctFields, List.mem_cons, List.not_mem_nil, or_false] at hg
  rcases hg with rfl | rfl | rfl | rfl | rfl | rfl | rfl | rfl | rfl | rfl | rfl | rfl | rfl |
    rfl | rfl | rfl | rfl | rfl | rfl | rfl | rfl | rfl | rfl | rfl | rfl
  case' inl => refine ⟨fun h => absurd rfl h, fun _ => rfl, fun _ => rfl, fun _ => rfl⟩
  case' inr.inl => refine ⟨fun _ => rfl, fun h => absurd rfl h, fun _ => rfl, fun _ => rfl⟩
  case' inr.inr.inl => refine ⟨fun _ => rfl, fun _ => rfl, fun h => absurd rfl h, fun _ => rfl⟩
  case' inr.inr.inr.inr.inl =>
    refine ⟨fun _ => rfl, fun _ => rfl, fun _ => rfl, fun h => absurd rfl h⟩
  all_goals exact ⟨fun _ => rfl, fun _ => rfl, fun _ => rfl, fun _ => rfl⟩

theorem ownField_action [LongWidth] (env : AcctEnv) :
    OwnField env ⟨str "action=", fun l v => { l with action := (actionOf v).getD l.action }⟩
      LogUser.action actionOf where
  mem := by simp [acctFields]
  set _ _ := rfl
  other _ hg hne l v := (acctFields_other hg l v).1 hne

theorem ownField_user [LongWidth] (env : AcctEnv) :
    OwnField env ⟨str "user=", fun l v => { l with username := v }⟩ LogUser.username some where
  mem := by simp [acctFields]
  set _ _ := rfl
  other _ hg hne l v := (acctFields_other hg l v).2.1 hne

theorem ownField_port [LongWidth] (env : AcctEnv) :
    OwnField env ⟨str "port=", fun l v => { l with port := v }⟩ LogUser.port some where
  mem := by simp [acctFields]
  set _ _ := rfl
  other _ hg hne l v := (acctFields_other hg l v).2.2.1 hne

theorem ownField_nas [LongWidth] (env : AcctEnv) :
    OwnField env ⟨str "nas=", fun l v => { l with nas := fill env v }⟩ LogUser.nas
      (fun v => some (fill env v)) where
  mem := by simp [acctFields]
  set _ _ := rfl
  other _ hg hne l v := (acctFields_other hg l v).2.2.2 hne

/-! ## What is done with a record -/

/-- The action of a record is one of the three, or the unknown one. -/
theorem logUser_action [LongWidth] (env : AcctEnv) (logavp : List Bytes) :
    (logUser env logavp).action = 0 ∨ (logUser env logavp).action = 1 ∨
      (logUser env logavp).action = 2 ∨ (logUser env logavp).action = 3 := by
  rw [logUser_get (ownField_action env)]
  cases hw : lastWrite (written (str "action=") actionOf) logavp with
  | none => exact Or.inl rfl
  | some a =>
    obtain ⟨s, -, hs⟩ := exists_of_lastWrite hw
    obtain ⟨v, -, hv⟩ := Option.bind_eq_some_iff.mp hs
    exact Or.inr (actionOf_cases hv)

/-- The operation of the tracking system that a record stands for. -/
def LogUser.op (l : LogUser) : TrackOp :=
  if l.action = 3 then .del l.username l.nas l.prt
  else .add l.username l.nas l.prt l.phone l.ip

/-- **Accounting is a step of the tracking system**, under the names of the record. -/
theorem dbAccounting_step [LongWidth] (md5 : Bytes → Digest) {env : AcctEnv} (s : UserTrack)
    (w : World) {logavp : List Bytes} {l : LogUser} (h : (logUser env logavp).entry = some l) :
    ∃ e, (tracking md5).step s (w, l.op) = .ok ((dbAccounting env s w logavp).track, e) := by
  have hl : l = logUser env logavp ∧ l.action ≠ 0 := by
    rw [LogUser.entry] at h
    split at h
    next => contradiction
    next hne =>
      obtain rfl := Option.some.inj h
      exact ⟨rfl, fun h0 => hne (Or.inr h0)⟩
  have haction := logUser_action env logavp
  rw [← hl.1] at haction
  simp only [tracking, dbAccounting, h, LogUser.op]
  rcases haction with h0 | h1 | h2 | h3
  · exact absurd h0 hl.2
  · rw [h1]
    exact ⟨_, rfl⟩
  · rw [h2]
    exact ⟨_, rfl⟩
  · rw [h3]
    exact ⟨_, rfl⟩

/-- What `db_accounting` hands on is the record, under its names. -/
theorem dbAccounting_hands_on [LongWidth] {env : AcctEnv} (s : UserTrack) (w : World)
    {logavp : List Bytes} {l : LogUser} (h : (logUser env logavp).entry = some l) :
    (∀ l' ∈ (dbAccounting env s w logavp).addLog, l' = l) ∧
      ∀ u ∈ (dbAccounting env s w logavp).ut, ∃ add, u = l.bundle add := by
  simp only [dbAccounting, h]
  split
  · refine ⟨fun l' hl' => by simp at hl', fun u hu => ⟨true, ?_⟩⟩
    simpa [eq_comm] using (Option.ite_none_right_eq_some.mp hu).2
  · split
    · refine ⟨fun l' hl' => (Option.some.inj hl').symm, fun u hu => ⟨false, ?_⟩⟩
      simpa [eq_comm] using (Option.ite_none_right_eq_some.mp hu).2
    · split
      · refine ⟨fun l' hl' => by simp at hl', fun u hu => ⟨true, ?_⟩⟩
        simpa [eq_comm] using (Option.ite_none_right_eq_some.mp hu).2
      · exact ⟨fun l' hl' => by simp at hl', fun u hu => by simp at hu⟩

/-! ## The list of texts -/

/-- A line of the log that fits its buffer. -/
theorem logLine_eq {name value : Bytes} (h0 : (0 : UInt8) ∉ name)
    (hlen : name.length + value.length ≤ 127) : logLine name value = name ++ cstr value := by
  have hle := length_cstr_le value
  rw [logLine, snprintf, cstr_append h0, List.take_of_length_le]
  rw [List.length_append]
  omega

/-- The lines of a packet that comes from an address, each with its tag. -/
def headerLines (peer : Bytes) (req : AcctRequest) : List (Bytes × Bytes) :=
  [(str "action=", acctAction req.flag), (str "user=", cstr req.user),
    (str "port=", cstr req.port), (str "from=", cstr req.remAddr),
    (str "nas=", cstr (peer.take ipLen))]

theorem headerLines_apart (peer : Bytes) (req : AcctRequest) :
    (headerLines peer req).Pairwise fun p q => Apart p.1 q.1 := by
  have htags : ([str "action=", str "user=", str "port=", str "from=", str "nas="] :
      List Bytes).Pairwise Apart := by decide +kernel
  have hmap : (headerLines peer req).map Prod.fst =
      [str "action=", str "user=", str "port=", str "from=", str "nas="] := rfl
  rwa [← hmap, List.pairwise_map] at htags

theorem acctAction_cases (flag : UInt8) :
    acctAction flag = str "START" ∨ acctAction flag = str "STOP" ∨
      acctAction flag = str "UPDATE" := by
  rw [acctAction]
  split
  · exact Or.inl rfl
  · split
    · exact Or.inr (Or.inl rfl)
    · exact Or.inr (Or.inr rfl)

theorem cstr_acctAction (flag : UInt8) : cstr (acctAction flag) = acctAction flag := by
  rcases acctAction_cases flag with h | h | h <;> rw [h] <;> decide

theorem length_acctAction_le (flag : UInt8) : (acctAction flag).length ≤ 6 := by
  rcases acctAction_cases flag with h | h | h <;> rw [h] <;> decide

/-- The AVPs of the client that go into the list. -/
def clientTexts (req : AcctRequest) : List Bytes :=
  req.avpair.filter fun avp =>
    decide (avp ≠ []) && !scompNum avp (str "faxrelay-start-time=") 20

/-- The accepted packet has the address it came from. -/
theorem getRequest_nas {peer : Bytes} {hdr : Hdr} {pak : Bytes} {req : AcctRequest}
    (h : TacacsServerAccounting.getRequest peer hdr pak = some (some req)) :
    req.nas = peer.take ipLen := by
  simp only [TacacsServerAccounting.getRequest] at h
  repeat' split at h
  all_goals first
    | contradiction
    | cases h
  rfl

/-- The list: the lines of the packet, then the texts of the client. -/
theorem logavp_eq {peer : Bytes} {req : AcctRequest} {lines : List Bytes}
    (hnas : req.nas = peer.take ipLen) (h : logavp req = some lines) :
    lines = (headerLines peer req).map (fun p => p.1 ++ p.2) ++ clientTexts req := by
  rw [logavp] at h
  split at h
  next user port remAddr huser hport hrem =>
    obtain ⟨hu, rfl⟩ := terminated_eq_some_iff.mp huser
    obtain ⟨hp, rfl⟩ := terminated_eq_some_iff.mp hport
    obtain ⟨hr, rfl⟩ := terminated_eq_some_iff.mp hrem
    have haction := length_acctAction_le req.flag
    have hn : req.nas.length ≤ ipLen := by
      rw [hnas]
      exact List.length_take_le ipLen peer
    have h1 : (str "action=").length = 7 := rfl
    have h2 : (str "user=").length = 5 := rfl
    have h3 : (str "port=").length = 5 := rfl
    have h4 : (str "from=").length = 5 := rfl
    have h5 : (str "nas=").length = 4 := rfl
    simp only [usernameLen, portLen, remAddrLen, ipLen] at hu hp hr hn
    rw [← Option.some.inj h, logLine_eq (by decide) (by omega), logLine_eq (by decide) (by omega),
      logLine_eq (by decide) (by omega), logLine_eq (by decide) (by omega),
      logLine_eq (by decide) (by omega), cstr_acctAction, hnas]
    rfl
  next => contradiction

/-! ## What the client says -/

/-- The value that the AVPs of a packet give to the field of a tag. -/
def clientSays {α : Type} (tag : Bytes) (read : Bytes → Option α) (req : AcctRequest) :
    Option α := lastWrite (written tag read) req.avpair

/-- The AVPs that are left out of the list have no tag of a field. -/
theorem clientSays_eq {α : Type} {tag : Bytes} (htag : Apart (str "faxrelay-start-time=") tag)
    (read : Bytes → Option α) (req : AcctRequest) :
    lastWrite (written tag read) (clientTexts req) = clientSays tag read req := by
  refine lastWrite_filter (fun avp hkeep => ?_) req.avpair
  rw [Bool.and_eq_false_iff] at hkeep
  rcases hkeep with hnil | hfax
  · obtain rfl : avp = [] := by simpa using hnil
    apply written_of_not_prefix
    intro hp
    rw [List.prefix_nil.mp hp] at htag
    exact htag.2 List.nil_prefix
  · refine written_apart htag ?_ read
    simp only [Bool.not_eq_false', scompNum, Bool.and_eq_true, beq_iff_eq] at hfax
    rw [List.prefix_iff_eq_take]
    exact hfax.2.symm

/-- **What a field of the identity holds**: what the client says, and else what the
header says. -/
theorem logUser_logavp [LongWidth] {env : AcctEnv} {f : Field UInt8 LogUser} {α : Type}
    {get : LogUser → α} {read : Bytes → Option α} (hf : OwnField env f get read)
    (htag : Apart (str "faxrelay-start-time=") f.tag) {peer v : Bytes} {req : AcctRequest}
    {lines : List Bytes} (hnas : req.nas = peer.take ipLen) (hlines : logavp req = some lines)
    (hv : (f.tag, v) ∈ headerLines peer req) :
    get (logUser env lines) =
      ((clientSays f.tag read req).or (read v)).getD (get LogUser.new) := by
  rw [logUser_get hf, logavp_eq hnas hlines, lastWrite_append, clientSays_eq htag,
    lastWrite_lines (headerLines_apart peer req) hv]

/-! ## Identities -/

/-- Under which identity a packet is recorded. -/
structure AcctIdentity where
  action : ℕ
  username : Bytes
  port : Bytes
  nas : Bytes
  deriving DecidableEq, Repr

def LogUser.identity (l : LogUser) : AcctIdentity := ⟨l.action, l.username, l.port, l.nas⟩

/-- The identity under which `db_accounting` records and acts, where it does.  It is not called for
the flag 0, which `process` takes for an error. -/
def accountedAs [LongWidth] (env : AcctEnv) (req : AcctRequest) : Option (Option AcctIdentity) :=
  if req.flag = 0 then some none
  else (logavp req).map fun lines => (logUser env lines).entry.map LogUser.identity

/-- It is the identity of the list that `process` hands on. -/
theorem accountedAs_of_acct [LongWidth] (env : AcctEnv) {cfg : SessionConfig}
    {s : TacacsSessionContainer} {i : Input} {pak : Bytes} {req : AcctRequest} {r : Reaction}
    (hseq : s.tac.seqNo = 1)
    (hreq : TacacsServerAccounting.getRequest cfg.peer i.hdr pak = some (some req))
    (h : s.acct cfg i pak = some r) :
    accountedAs env req =
      some (r.accounting.bind fun lines => (logUser env lines).entry.map LogUser.identity) := by
  rw [TacacsSessionContainer.acct, if_neg (not_not.mpr hseq)] at h
  simp only [hreq] at h
  rw [accountedAs]
  split at h
  · next hflag =>
    obtain rfl := Option.some.inj h
    rw [if_pos hflag]
    rfl
  · next hflag =>
    rw [if_neg hflag]
    split at h
    · next reply lines _ hlines =>
      obtain rfl := Option.some.inj h
      rw [hlines]
      rfl
    · contradiction

/-- The action that the flag stands for. -/
def acctActionCode (flag : UInt8) : ℕ :=
  if flag = tacPlusAcctFlagStart then 1 else if flag = tacPlusAcctFlagStop then 3 else 2

/-- The identity that header and peer address give; a packet with the flag 0 or without a name has
none. -/
def AcctRequest.identity (env : AcctEnv) (peer : Bytes) (req : AcctRequest) :
    Option AcctIdentity :=
  if req.flag = 0 ∨ cstr req.user = [] then none
  else some ⟨acctActionCode req.flag, cstr req.user, cstr req.port,
    fill env (cstr (peer.take ipLen))⟩

/-- The tags that make up the identity. -/
def identityTags : List Bytes := [str "action=", str "user=", str "port=", str "nas="]

/-- The packet without the AVPs that have one of these tags. -/
def AcctRequest.stripped (req : AcctRequest) : AcctRequest :=
  { req with avpair := req.avpair.filter fun avp => !identityTags.any fun tag => tag <+: avp }

/-- **The identity of a packet is its own**: it is the one of header and peer address,
and the AVPs with its tags make no difference. -/
structure IdentityKept [LongWidth] (env : AcctEnv) (peer : Bytes) (req : AcctRequest) : Prop where
  own : accountedAs env req = some (req.identity env peer)
  same : accountedAs env req = accountedAs env req.stripped

/-- What the client says with these tags is what the header says, as far as the packet is
recorded. -/
structure ClientAgrees (env : AcctEnv) (peer : Bytes) (req : AcctRequest) : Prop where
  user : ∀ u ∈ clientSays (str "user=") some req, u = cstr req.user
  action : cstr req.user ≠ [] →
    ∀ a ∈ clientSays (str "action=") actionOf req, a = acctActionCode req.flag
  port : cstr req.user ≠ [] → ∀ p ∈ clientSays (str "port=") some req, p = cstr req.port
  nas : cstr req.user ≠ [] →
    ∀ n ∈ clientSays (str "nas=") (fun v => some (fill env v)) req,
      n = fill env (cstr (peer.take ipLen))

theorem actionOf_acctAction (flag : UInt8) :
    actionOf (acctAction flag) = some (acctActionCode flag) := by
  rw [acctAction, acctActionCode]
  split
  · decide
  · split <;> decide

/-- The value of a field, from what the client says and what the header says. -/
theorem getD_or_some {α : Type} (o : Option α) (a b : α) : (o.or (some a)).getD b = o.getD a := by
  cases o <;> rfl

/-- The four fields of the record of a packet. -/
theorem logUser_identity [LongWidth] (env : AcctEnv) {peer : Bytes} {req : AcctRequest}
    {lines : List Bytes} (hnas : req.nas = peer.take ipLen) (hlines : logavp req = some lines) :
    (logUser env lines).identity =
      ⟨(clientSays (str "action=") actionOf req).getD (acctActionCode req.flag),
        (clientSays (str "user=") some req).getD (cstr req.user),
        (clientSays (str "port=") some req).getD (cstr req.port),
        (clientSays (str "nas=") (fun v => some (fill env v)) req).getD
          (fill env (cstr (peer.take ipLen)))⟩ := by
  have haction := logUser_logavp (ownField_action env) (by decide) hnas hlines
    (v := acctAction req.flag) (by simp [headerLines])
  have huser := logUser_logavp (ownField_user env) (by decide) hnas hlines
    (v := cstr req.user) (by simp [headerLines])
  have hport := logUser_logavp (ownField_port env) (by decide) hnas hlines
    (v := cstr req.port) (by simp [headerLines])
  have hnasOf := logUser_logavp (ownField_nas env)
    (show Apart (str "faxrelay-start-time=") (str "nas=") by decide) hnas hlines
    (v := cstr (peer.take ipLen)) (by simp [headerLines])
  rw [actionOf_acctAction, getD_or_some] at haction
  rw [getD_or_some] at huser hport hnasOf
  rw [LogUser.identity, haction, huser, hport, hnasOf]

/-- The action of a packet is never the unknown one. -/
theorem action_ne_zero (req : AcctRequest) :
    (clientSays (str "action=") actionOf req).getD (acctActionCode req.flag) ≠ 0 := by
  cases hc : clientSays (str "action=") actionOf req with
  | none =>
    have hcases := actionOf_cases (actionOf_acctAction req.flag)
    rw [Option.getD_none]
    omega
  | some a =>
    obtain ⟨avp, -, hw⟩ := exists_of_lastWrite hc
    obtain ⟨v, -, hv⟩ := Option.bind_eq_some_iff.mp hw
    have hcases := actionOf_cases hv
    rw [Option.getD_some]
    omega

/-- A default value stays when what is given is the same. -/
theorem getD_eq_iff {α : Type} (o : Option α) (b : α) : o.getD b = b ↔ ∀ v ∈ o, v = b := by
  cases o <;> simp

/-- What `db_accounting` does with the list of a packet. -/
theorem accountedAs_eq [LongWidth] {env : AcctEnv} {peer : Bytes} {req : AcctRequest}
    {lines : List Bytes} (hflag : req.flag ≠ 0) (hnas : req.nas = peer.take ipLen)
    (hlines : logavp req = some lines) :
    accountedAs env req =
      some (if (clientSays (str "user=") some req).getD (cstr req.user) = [] then none
        else some (logUser env lines).identity) := by
  have hid := logUser_identity env hnas hlines
  have huser := congrArg AcctIdentity.username hid
  have haction := congrArg AcctIdentity.action hid
  simp only [LogUser.identity] at huser haction
  have hne := action_ne_zero req
  rw [accountedAs, if_neg hflag, hlines, Option.map_some, LogUser.entry, huser, haction]
  simp only [hne, or_false]
  split <;> rfl

/-- The record is under the packet's own identity exactly when the client agrees. -/
theorem own_iff [LongWidth] (env : AcctEnv) {peer : Bytes} {req : AcctRequest}
    {lines : List Bytes} (hflag : req.flag ≠ 0) (hnas : req.nas = peer.take ipLen)
    (hlines : logavp req = some lines) :
    accountedAs env req = some (req.identity env peer) ↔ ClientAgrees env peer req := by
  rw [accountedAs_eq hflag hnas hlines, logUser_identity env hnas hlines, AcctRequest.identity]
  simp only [hflag, false_or]
  constructor
  · intro h
    have h' := Option.some.inj h
    by_cases hu : cstr req.user = []
    · rw [if_pos hu] at h'
      split at h'
      next hu' =>
        refine ⟨(getD_eq_iff _ _).mp (hu'.trans hu.symm), ?_, ?_, ?_⟩ <;>
          exact fun hne => absurd hu hne
      next => contradiction
    · rw [if_neg hu] at h'
      split at h'
      next => contradiction
      next =>
        obtain ⟨ha, hu', hp, hn⟩ := AcctIdentity.mk.inj (Option.some.inj h')
        exact ⟨(getD_eq_iff _ _).mp hu', fun _ => (getD_eq_iff _ _).mp ha,
          fun _ => (getD_eq_iff _ _).mp hp, fun _ => (getD_eq_iff _ _).mp hn⟩
  · rintro ⟨hu, ha, hp, hn⟩
    rw [(getD_eq_iff _ _).mpr hu]
    by_cases hne : cstr req.user = []
    · rw [if_pos hne, if_pos hne]
    · rw [if_neg hne, if_neg hne, (getD_eq_iff _ _).mpr (ha hne), (getD_eq_iff _ _).mpr (hp hne),
        (getD_eq_iff _ _).mpr (hn hne)]

/-- Without its AVPs of the identity the client says nothing about it. -/
theorem clientSays_stripped {α : Type} {tag : Bytes} (htag : tag ∈ identityTags)
    (read : Bytes → Option α) (req : AcctRequest) : clientSays tag read req.stripped = none := by
  apply lastWrite_eq_none
  intro avp havp
  apply written_of_not_prefix
  have hnone := (List.mem_filter.mp havp).2
  simp only [Bool.not_eq_true', List.any_eq_false, decide_eq_true_eq] at hnone
  exact hnone tag htag

/-- The texts of the header decide whether there is a list. -/
theorem logavp_stripped {req : AcctRequest} {lines : List Bytes} (h : logavp req = some lines) :
    ∃ lines', logavp req.stripped = some lines' := by
  rw [logavp] at h
  split at h
  next user port remAddr huser hport hrem =>
    apply Option.isSome_iff_exists.mp
    simp [logavp, AcctRequest.stripped, huser, hport, hrem]
  next => contradiction

theorem clientAgrees_stripped (env : AcctEnv) (peer : Bytes) (req : AcctRequest) :
    ClientAgrees env peer req.stripped := by
  constructor <;> intros
  all_goals
    rename_i hclient
    rw [clientSays_stripped (by decide)] at hclient
    contradiction

/-- **Accounting identity.**  A packet is recorded under its own identity exactly when it has the
flag 0, so that nothing is recorded, or the last AVP with each of the four tags says what the
header says. -/
theorem accounting_identity_iff [LongWidth] (env : AcctEnv) {peer : Bytes} {hdr : Hdr} {pak : Bytes}
    {req : AcctRequest}
    (hreq : TacacsServerAccounting.getRequest peer hdr pak = some (some req))
    (hlines : req.flag ≠ 0 → ∃ lines, logavp req = some lines) :
    IdentityKept env peer req ↔ req.flag = 0 ∨ ClientAgrees env peer req := by
  by_cases hflag : req.flag = 0
  · have hflag' : req.stripped.flag = 0 := hflag
    refine iff_of_true ⟨?_, ?_⟩ (.inl hflag)
    · rw [accountedAs, if_pos hflag, AcctRequest.identity, if_pos (.inl hflag)]
    · rw [accountedAs, if_pos hflag, accountedAs, if_pos hflag']
  · have hnas := getRequest_nas hreq
    obtain ⟨lines, hlines⟩ := hlines hflag
    have hown := own_iff env hflag hnas hlines
    rw [or_iff_right hflag]
    constructor
    · intro h
      exact hown.mp h.own
    · intro h
      obtain ⟨lines', hlines'⟩ := logavp_stripped hlines
      have hstripped : accountedAs env req.stripped = some (req.identity env peer) :=
        (@own_iff _ env peer req.stripped lines' hflag hnas hlines').mpr
          (clientAgrees_stripped env peer req)
      exact ⟨hown.mpr h, (hown.mpr h).trans hstripped.symm⟩

/-! ## Two packets -/

/-- A machine that is asked for the texts of addresses only: they stay as they are. -/
def plainEnv : AcctEnv where
  gethostbyname name := some name
  inetAddr s := s
  h323time2time _ := 0

/-- The body of a START packet of bob on Async1, with one AVP. -/
def startBody (avp : Bytes) : Bytes :=
  [2, 0, 0, 0, 0, 3, 6, 0, 1, avp.length.toUInt8] ++ str "bob" ++ str "Async1" ++ avp

/-- Its request, as it is decoded. -/
def startRequest (avp : Bytes) : AcctRequest where
  flag := 2
  method := 0
  privLvl := 0
  authenType := 0
  authenService := 0
  user := str "bob"
  port := str "Async1"
  remAddr := []
  nas := str "10.0.0.1"
  avpair := [avp]

theorem accounting_identity_ppp :
    IdentityKept plainEnv (str "10.0.0.1") (startRequest (str "service=ppp")) := by
  have hclient : ∀ {α : Type} (tag : Bytes) (read : Bytes → Option α), tag ∈ identityTags →
      clientSays tag read (startRequest (str "service=ppp")) = none := by
    intro α tag read htag
    have hsame : (startRequest (str "service=ppp")).stripped =
        startRequest (str "service=ppp") := by decide +kernel
    rw [← hsame, clientSays_stripped htag read]
  apply (@accounting_identity_iff _ plainEnv (str "10.0.0.1") ⟨192, 3, 1, 0, 7, 30⟩
    (startBody (str "service=ppp")) (startRequest (str "service=ppp")) (by decide +kernel)
    fun _ => ⟨_, rfl⟩).mpr
  right
  constructor <;> intros
  all_goals
    rename_i hone
    rw [hclient _ _ (by decide)] at hone
    contradiction

/-- With the AVP `user=root` the packet of bob is recorded for root. -/
theorem accounting_client_user :
    TacacsServerAccounting.getRequest (str "10.0.0.1") ⟨192, 3, 1, 0, 7, 28⟩
        (startBody (str "user=root")) = some (some (startRequest (str "user=root"))) ∧
      accountedAs plainEnv (startRequest (str "user=root")) =
        some (some ⟨1, str "root", str "Async1", str "10.0.0.1"⟩) ∧
      ¬ IdentityKept plainEnv (str "10.0.0.1") (startRequest (str "user=root")) := by
  have hroot : accountedAs plainEnv (startRequest (str "user=root")) =
      some (some ⟨1, str "root", str "Async1", str "10.0.0.1"⟩) := by decide +kernel
  refine ⟨by decide +kernel, hroot, ?_⟩
  intro hkept
  have hown := hkept.own
  rw [hroot] at hown
  exact absurd hown (by decide +kernel)

end Tacppd
