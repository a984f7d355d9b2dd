/-
# After the verdict

The server ends an authentication with PASS or FAIL, but nothing in the session records
it: the request type and the user name stay, and a further CONTINUE packet is read as
before.  Here is exactly when a session that has got its verdict is not checked again.
-/
import Tacppd.SessionAuthen

namespace Tacppd

/-! ## Verdicts -/

/-- A reply packet with the status FAIL. -/
def Sent.isFail (p : Sent) : Prop :=
  p.hdr.type = PacketType.authen.code ∧ p.body.head? = some AuthenStatus.fail.code

/-- The server has sent PASS or FAIL. -/
def Finished (h : List (Input × Processed)) : Prop :=
  ∃ x ∈ h, ∃ p ∈ x.2.replies, p.isPass ∨ p.isFail

/-- In this step the user is not checked again and no PASS is sent. -/
def Processed.quiet (o : Processed) : Prop := o.call = none ∧ ¬ ∃ p ∈ o.replies, p.isPass

/-- A CONTINUE packet that is whole and not an abort, with a text of at most `maxlen`
bytes. -/
def contSupplies (hdr : Hdr) (pak : Bytes) (maxlen : ℕ) : Prop :=
  ∃ cont, getCont hdr pak maxlen = some (some cont) ∧ cont.flag ≠ 1

/-- The packet is taken as another CONTINUE: the request is an ASCII login or an enable
request, the number is not past 7, and the packet supplies a user name or a password. -/
def TacacsSessionContainer.carriesOn (md5 : Bytes → Digest) (s : TacacsSessionContainer)
    (i : Input) : Prop :=
  s.handler.goesOn = true ∧ s.tac.seqNo + 1 ≤ 7 ∧
    contSupplies i.hdr (s.tac.decrypt md5 i ++ List.replicate 15 0)
      (if s.handler.user = [] ∧ s.tac.seqNo + 1 ≤ 4 then usernameLen else passwordLen)

/-! ## The stages -/

section

variable {md5 : Bytes → Digest} {env : Env} {cfg : SessionConfig} {pwdstring : Bytes}
  {a : TacacsServerAuthentication} {hdr : Hdr} {pak : Bytes} {out : AuthenOutcome}
  {s s' : TacacsSessionContainer} {i : Input} {o : Processed} {r : Reaction}

/-- There is no PASS without a check. -/
theorem Outcome.call_none {user secret : Bytes} (ho : Outcome md5 env user secret out)
    (hcall : out.call = none) {a : AuthenReply} (ha : out.reply = some a) : a.status ≠ .pass := by
  intro hpass
  obtain ⟨call, hsome, -⟩ := ho.pass ha hpass
  rw [hcall] at hsome
  contradiction

theorem decide_call (a : TacacsServerAuthentication) (password : Bytes) (yes no : AuthenReply) :
    (a.decide md5 env password yes no).call ≠ none := by
  simp [TacacsServerAuthentication.decide]

/-- The user stage makes a check exactly when the packet supplies a user name. -/
theorem userStage_call (h : userStage md5 env pwdstring a hdr pak = some out) :
    out.call = none ↔ ¬ contSupplies hdr pak usernameLen := by
  unfold userStage at h
  split at h
  · contradiction
  · next hcont =>
    obtain rfl := Option.some.inj h
    simp [contSupplies, hcont]
  · next cont hcont =>
    split at h
    · contradiction
    · simp only at h
      split at h
      · next hflag =>
        obtain rfl := Option.some.inj h
        simp [contSupplies, hcont, hflag]
      · next hflag =>
        obtain rfl := Option.some.inj h
        refine iff_of_false (decide_call _ _ _ _) (not_not.mpr ⟨cont, hcont, hflag⟩)

/-- The password stage makes a check exactly when the packet supplies a password. -/
theorem passwordStage_call (h : passwordStage md5 env a hdr pak = some out) :
    out.call = none ↔ ¬ contSupplies hdr pak passwordLen := by
  unfold passwordStage at h
  split at h
  · contradiction
  · next hcont =>
    obtain rfl := Option.some.inj h
    simp [contSupplies, hcont]
  · next cont hcont =>
    split at h
    · next hflag =>
      obtain rfl := Option.some.inj h
      simp [contSupplies, hcont, hflag]
    · next hflag =>
      split at h
      · contradiction
      · obtain rfl := Option.some.inj h
        refine iff_of_false ?_ (not_not.mpr ⟨cont, hcont, hflag⟩)
        cases a.enReq <;> exact decide_call _ _ _ _

/-- **One packet behind the first**: it is quiet exactly when it is not taken as another
CONTINUE. -/
theorem Authenticated.quiet_iff (ha : Authenticated md5 cfg s i s' o out)
    (hseq : 1 ≤ s.tac.seqNo) : o.quiet ↔ ¬ s.carriesOn md5 i := by
  -- without a check there is no PASS, so that only the check is left to decide
  have hcheck : (∀ a, out.reply = some a → out.call = none → a.status ≠ .pass) →
      (o.quiet ↔ out.call = none) := by
    intro hno
    refine ⟨fun hq => ha.call.symm.trans hq.1, fun hcall => ⟨ha.call.trans hcall, fun hp => ?_⟩⟩
    obtain ⟨a, hreply, hstatus⟩ := ha.pass hp
    exact hno a hreply hcall hstatus
  rcases processAuthen_later (by omega) ha.outcome with
    ⟨hgo, huser, hnum, hstage⟩ | ⟨hgo, hlate, hseven, hstage⟩ | ⟨hlate, rfl⟩
  · rw [hcheck fun a hreply hcall => (userStage_ok hstage).1.call_none hcall hreply,
      userStage_call hstage]
    have hseven : s.tac.seqNo + 1 ≤ 7 := by omega
    rw [TacacsSessionContainer.carriesOn, if_pos ⟨huser, hnum⟩]
    simp [hgo, hseven]
  · rw [hcheck fun a hreply hcall => (passwordStage_ok hstage).1.call_none hcall hreply,
      passwordStage_call hstage]
    have hcap : ¬ (s.handler.user = [] ∧ s.tac.seqNo + 1 ≤ 4) := by
      rintro ⟨hnil, hnum⟩
      have := hlate hnil
      omega
    rw [TacacsSessionContainer.carriesOn, if_neg hcap]
    simp [hgo, hseven]
  · rw [hcheck fun a hreply => nomatch hreply]
    refine iff_of_true rfl ?_
    rintro ⟨hgo, hseven, -⟩
    have := hlate hgo
    omega

/-! ## Runs -/

/-- The key of a session stays. -/
theorem reaches_key {h : List (Input × Processed)} (hr : (session md5 cfg).Reaches h s) :
    s.tac.key = cfg.packet.key := by
  refine hr.invariant (I := fun _ s => s.tac.key = cfg.packet.key) _ rfl ?_
  intro h s i s' o _ hkey hstep
  obtain ⟨r, hs⟩ := receive_ok hstep
  exact hs.key.trans hkey

end

/-- **A finished authentication stays finished, exactly when no packet behind the
verdict carries on.**  In every run of a session on authentication packets: behind a
PASS or a FAIL no user is checked again and no PASS is sent if and only if no packet
behind it finds the session in a state that takes it as another CONTINUE. -/
theorem session_over_iff (md5 : Bytes → Digest) (cfg : SessionConfig)
    (h : List (Input × Processed)) (s : TacacsSessionContainer)
    (hr : (session md5 cfg).Reaches h s) (htypes : AllAuthen (inputs h)) :
    (∀ pre x post, h = pre ++ x :: post → Finished pre → x.2.quiet) ↔
      (session md5 cfg).EveryStep (fun pre s i => Finished pre → ¬ s.carriesOn md5 i) h := by
  have hstep : ∀ pre x post s₁, h = pre ++ x :: post → (session md5 cfg).Reaches pre s₁ →
      Finished pre → (x.2.quiet ↔ ¬ s₁.carriesOn md5 x.1) := by
    intro pre x post s₁ hh hpre hfin
    rw [hh] at hr htypes
    obtain ⟨s₁', s₂, hpre', hs⟩ := hr.of_append
    obtain rfl := hpre.unique _ hpre'
    have htype : selector x.1.hdr = some .authen := by
      apply htypes
      simp [inputs]
    obtain ⟨r, hreceived⟩ := receive_ok hs
    obtain ⟨out, ha⟩ := hreceived.authenticated htype
    -- the verdict was a reply, so that the counter has gone up
    have hseq : 1 ≤ s₁.tac.seqNo := by
      obtain ⟨y, hy, -⟩ := hfin
      have hcount := (numbered hpre).count
      have hlen := List.length_pos_of_mem hy
      unfold exchanged at hcount
      omega
    exact ha.quiet_iff hseq
  constructor
  · intro hquiet pre x post s₁ hh hpre hfin
    exact (hstep pre x post s₁ hh hpre hfin).mp (hquiet pre x post hh hfin)
  · intro hnot pre x post hh hfin
    have hr' := hr
    rw [hh] at hr'
    obtain ⟨s₁, s₂, hpre, -⟩ := hr'.of_append
    exact (hstep pre x post s₁ hh hpre hfin).mpr (hnot pre x post s₁ hh hpre hfin)

/-! ## A second password -/

/-- The record of a user with a password. -/
def joe : DbUser := { openUser [] [] [] with authsrc := str "db", password := str "good" }

/-- The ASCII login of joe. -/
def joeStart : Input where
  env := quietEnv joe
  hdr := ⟨tacPlusVer0, 1, 1, tacPlusClear, 5, 11⟩
  body := [1, 0, 1, 1, 3, 0, 0, 0] ++ str "joe"
  got := by decide

/-- A wrong password, in packet 3. -/
def joeWrong : Input where
  env := quietEnv joe
  hdr := ⟨tacPlusVer0, 1, 3, tacPlusClear, 5, 8⟩
  body := [0, 3, 0, 0, 0] ++ str "bad"
  got := by decide

/-- The right password, in packet 5. -/
def joeRight : Input where
  env := quietEnv joe
  hdr := ⟨tacPlusVer0, 1, 5, tacPlusClear, 5, 9⟩
  body := [0, 4, 0, 0, 0] ++ str "good"
  got := by decide

/-- An abort in packet 5. -/
def joeAbort : Input where
  env := quietEnv joe
  hdr := ⟨tacPlusVer0, 1, 5, tacPlusClear, 5, 5⟩
  body := [0, 0, 0, 0, 1]
  got := by decide

/-- A check of joe's password with the reply that follows. -/
def joeChecked (password : Bytes) (result : Bool) (number : UInt8) (reply : Bytes) : Processed where
  call := some (⟨str "joe", password, [], str "10.0.0.1", [], []⟩, result)
  replies :=
    let hdr : Hdr := ⟨tacPlusVer0, 1, number, tacPlusClear, 5, UInt32.ofNat reply.length⟩
    [⟨hdr, reply, hdr, reply⟩]
  accounting := none

/-- The first two packets: the password is asked for, and the wrong one refused. -/
def joeRefused : List (Input × Processed) :=
  [(joeStart, joeChecked nullPassword false 2 ([5, 1, 0, 9, 0, 0] ++ str "password:")),
    (joeWrong, joeChecked (str "bad") false 4 [2, 1, 0, 0, 0, 0])]

def joePassed : Processed := joeChecked (str "good") true 6 [1, 1, 0, 0, 0, 0]

def joeAborted : Processed := ⟨none, [], none⟩

theorem history_joeRight :
    (session (fun _ => constDigest 0) clearSession).history [joeStart, joeWrong, joeRight] =
      joeRefused ++ [(joeRight, joePassed)] := rfl

theorem history_joeAbort :
    (session (fun _ => constDigest 0) clearSession).history [joeStart, joeWrong, joeAbort] =
      joeRefused ++ [(joeAbort, joeAborted)] := rfl

theorem finished_joeRefused : Finished joeRefused := by
  refine ⟨_, List.mem_cons_of_mem _ (List.mem_singleton.mpr rfl), _, List.mem_singleton.mpr rfl, ?_⟩
  exact .inr ⟨rfl, rfl⟩

/-- The wrong password is answered FAIL in packet 4, and then the right one is answered
PASS in packet 6 of the same session. -/
theorem session_second_password :
    ¬ ∀ (md5 : Bytes → Digest) (cfg : SessionConfig) (as : List Input), AllAuthen as →
      ∀ pre x post, (session md5 cfg).history as = pre ++ x :: post → Finished pre →
        ¬ ∃ p ∈ x.2.replies, p.isPass := by
  intro hclaim
  have htypes : AllAuthen [joeStart, joeWrong, joeRight] := by
    intro i hi
    simp only [List.mem_cons, List.not_mem_nil, or_false] at hi
    rcases hi with rfl | rfl | rfl <;> rfl
  exact hclaim _ _ _ htypes _ _ [] history_joeRight finished_joeRefused
    ⟨_, List.mem_singleton.mpr rfl, rfl, rfl⟩

/-- An abort behind the FAIL is left without an answer. -/
theorem session_over_abort : joeAborted.quiet := by
  have hr := (session (fun _ => constDigest 0) clearSession).reaches_history
    [joeStart, joeWrong, joeAbort]
  rw [history_joeAbort] at hr
  have htypes : AllAuthen (inputs (joeRefused ++ [(joeAbort, joeAborted)])) := by
    intro i hi
    simp only [inputs, joeRefused, List.map_cons, List.map_nil, List.cons_append, List.nil_append,
      List.mem_cons, List.not_mem_nil, or_false] at hi
    rcases hi with rfl | rfl | rfl <;> rfl
  refine (session_over_iff _ _ _ _ hr htypes).mpr ?_ joeRefused _ [] rfl finished_joeRefused
  intro pre x post s₁ hh hpre hfin
  rcases pre with _ | ⟨a, _ | ⟨b, _ | ⟨c, pre⟩⟩⟩
  · obtain ⟨y, hy, -⟩ := hfin
    simp at hy
  · -- the first packet is answered by the request for the password
    obtain ⟨rfl, -⟩ := List.cons.inj hh
    obtain ⟨y, hy, p, hp, hverdict⟩ := hfin
    obtain rfl := List.mem_singleton.mp hy
    obtain rfl := List.mem_singleton.mp hp
    rcases hverdict with ⟨-, hcode⟩ | ⟨-, hcode⟩ <;> contradiction
  · simp only [joeRefused, List.cons_append, List.nil_append, List.cons.injEq] at hh
    obtain ⟨rfl, rfl, rfl, -⟩ := hh
    rintro ⟨-, -, cont, hcont, hflag⟩
    have hclear : s₁.tac.decrypt (fun _ => constDigest 0) joeAbort = joeAbort.body :=
      TacacsPacket.decrypt_congr _ (reaches_key hpre) joeAbort
    rw [hclear] at hcont
    exact hflag (getCont_flag hcont)
  · simp [joeRefused] at hh

end Tacppd
