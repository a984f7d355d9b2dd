/-
# The names a login asks the database for

A user name comes from a START packet or from a CONTINUE packet, each through a length
check and as a C string.  So in every run of a session the name of every check has no
NUL and no more than 32 bytes (`session_names`), and the statement for it keeps its
tokens exactly when the name has no quote, and no backslash where backslashes escape
(`session_select_iff`).
-/
import Tacppd.SessionAuthen
import Tacppd.Select

namespace Tacppd

/-- A user name as the packets bring it. -/
def WireName (u : Bytes) : Prop := (0 : UInt8) ∉ u ∧ u.length ≤ usernameLen

theorem wireName_nil : WireName [] := ⟨by simp, by simp⟩

theorem wireName_field {body : Bytes} {off len : ℕ} (h : len ≤ usernameLen) :
    WireName (field body off len) := by
  have hcstr := length_cstr_le ((body.drop off).take len)
  rw [List.length_take] at hcstr
  exact ⟨zero_not_mem_cstr _, by rw [field]; omega⟩

/-- The statement for such a name. -/
theorem WireName.lex_quoted_iff {u : Bytes} (h : WireName u) (esc : Option (UInt8 → UInt8)) :
    Sql.lex esc (selectHead ++ quoted u) = some (selectTokens ++ [.lit u]) ↔ Sql.Plain esc u := by
  have hlen := h.2
  rw [usernameLen] at hlen
  rw [Tacppd.lex_quoted_iff]
  exact ⟨fun hu => hu.2.2, fun hu => ⟨h.1, by omega, hu⟩⟩

/-! ## One packet -/

section

variable {md5 : Bytes → Digest} {env : Env} {loginstring pwdstring peer : Bytes}
  {a : TacacsServerAuthentication} {hdr : Hdr} {pak : Bytes} {o : AuthenOutcome}

theorem getStart_wireName {start : Start} (ha : WireName a.user)
    (h : getStart a peer hdr pak = some start) : WireName start.authen.user := by
  unfold getStart at h
  split at h
  · obtain rfl := Option.some.inj h
    exact ha
  · simp only at h
    split at h
    · obtain rfl := Option.some.inj h
      exact ha
    · split at h
      · contradiction
      · obtain rfl := Option.some.inj h
        exact ha
      · next user huser =>
        obtain ⟨hlen, hfield⟩ := startField_eq_some huser
        have hname : WireName user := by
          rw [hfield]
          exact wireName_field (Nat.le_of_lt hlen)
        -- the fields after the name leave it as it is
        repeat' split at h
        all_goals first
          | contradiction
          | obtain rfl := Option.some.inj h
            exact hname

/-- The user after a packet has such a name, and a check is made for this user. -/
structure WireOutcome (o : AuthenOutcome) : Prop where
  user : WireName o.authen.user
  call : ∀ c ∈ o.call, c.1.user = o.authen.user

theorem wireOutcome_told (ha : WireName a.user) (reply : Option AuthenReply) :
    WireOutcome ⟨a, none, reply⟩ := ⟨ha, by simp⟩

theorem wireOutcome_decide (ha : WireName a.user) (password : Bytes) (yes no : AuthenReply) :
    WireOutcome (a.decide md5 env password yes no) := by
  refine ⟨ha, fun c hc => ?_⟩
  obtain rfl := Option.some.inj hc
  rfl

theorem processStart_wireOutcome
    (h : processStart md5 env loginstring pwdstring a peer hdr pak = some o) : WireOutcome o := by
  unfold processStart at h
  split at h
  · contradiction
  · next start hstart =>
    have huser : WireName start.authen.user := getStart_wireName wireName_nil hstart
    split at h
    · obtain rfl := Option.some.inj h
      exact wireOutcome_told huser _
    · simp only at h
      -- with every type the user stays the one in the packet
      split_ifs at h <;> obtain rfl := Option.some.inj h
      · exact wireOutcome_told (by exact huser) _
      · exact wireOutcome_decide (by exact huser) _ _ _
      · exact wireOutcome_decide (by exact huser) _ _ _
      · exact wireOutcome_told (by exact huser) _
      · exact wireOutcome_told (by exact huser) _
      · exact wireOutcome_told (by exact huser) _

theorem userStage_wireOutcome (ha : WireName a.user)
    (h : userStage md5 env pwdstring a hdr pak = some o) : WireOutcome o := by
  unfold userStage at h
  split at h
  · contradiction
  · obtain rfl := Option.some.inj h
    exact wireOutcome_told ha _
  · next cont hcont =>
    obtain ⟨hlen, hmax, hdata, hmsg⟩ := getCont_eq_some hcont
    split at h
    · contradiction
    · next user huser =>
      obtain ⟨-, rfl⟩ := terminated_eq_some_iff.mp huser
      have hname : WireName cont.userMsg := by
        rw [hmsg]
        exact wireName_field hmax
      simp only at h
      split at h
      · obtain rfl := Option.some.inj h
        exact wireOutcome_told hname _
      · obtain rfl := Option.some.inj h
        exact wireOutcome_decide hname _ _ _

theorem passwordStage_wireOutcome (ha : WireName a.user)
    (h : passwordStage md5 env a hdr pak = some o) : WireOutcome o := by
  unfold passwordStage at h
  split at h
  · contradiction
  · obtain rfl := Option.some.inj h
    exact wireOutcome_told ha _
  · split at h
    · obtain rfl := Option.some.inj h
      exact wireOutcome_told ha _
    · split at h
      · contradiction
      · obtain rfl := Option.some.inj h
        refine wireOutcome_decide ?_ _ _ _
        split
        · exact ha
        · exact ha

/-- **One authentication packet.** -/
theorem processAuthen_wireOutcome {seq : ℕ} (ha : WireName a.user)
    (h : processAuthen md5 env loginstring pwdstring a peer seq hdr pak = some o) :
    WireOutcome o := by
  unfold processAuthen at h
  split_ifs at h with hone hearly hgo huser hlate hgo'
  · exact processStart_wireOutcome h
  · exact userStage_wireOutcome ha h
  · exact passwordStage_wireOutcome ha h
  · obtain rfl := Option.some.inj h
    exact wireOutcome_told ha _
  · exact passwordStage_wireOutcome ha h
  · obtain rfl := Option.some.inj h
    exact wireOutcome_told ha _
  · obtain rfl := Option.some.inj h
    exact wireOutcome_told ha _

end

/-! ## A session -/

section

variable {md5 : Bytes → Digest} {cfg : SessionConfig} {h : List (Input × Processed)}
  {s s' : TacacsSessionContainer} {i : Input} {o : Processed} {r : Reaction} {pak : Bytes}

/-- An authorization leaves the authentication alone. -/
theorem author_tacAuthen (h : s.author cfg i pak = some r) :
    r.tacAuthen = s.tacAuthen ∧ r.call = none := by
  unfold TacacsSessionContainer.author at h
  simp only at h
  split at h
  · contradiction
  · split at h
    · contradiction
    · obtain rfl := Option.some.inj h
      exact ⟨rfl, rfl⟩
  · split at h
    · contradiction
    · split at h
      · contradiction
      · obtain rfl := Option.some.inj h
        exact ⟨rfl, rfl⟩

/-- So does an accounting. -/
theorem acct_tacAuthen (h : s.acct cfg i pak = some r) :
    r.tacAuthen = s.tacAuthen ∧ r.call = none := by
  unfold TacacsSessionContainer.acct at h
  split at h
  · obtain rfl := Option.some.inj h
    exact ⟨rfl, rfl⟩
  · split at h
    · contradiction
    · obtain rfl := Option.some.inj h
      exact ⟨rfl, rfl⟩
    · split at h
      · obtain rfl := Option.some.inj h
        exact ⟨rfl, rfl⟩
      · split at h
        · obtain rfl := Option.some.inj h
          exact ⟨rfl, rfl⟩
        · contradiction

/-- The user of the session and the name of a check, after a packet of any type. -/
theorem react_wireName (hs : WireName s.handler.user) (h : s.react md5 cfg i pak = some r) :
    WireName (r.tacAuthen.getD TacacsServerAuthentication.new).user ∧
      ∀ c ∈ r.call, WireName c.1.user := by
  unfold TacacsSessionContainer.react at h
  split at h
  · obtain ⟨out, hout, hauthen, hcall, -⟩ := authen_ok h
    have hnamed := processAuthen_wireOutcome hs hout
    rw [hauthen, hcall]
    exact ⟨hnamed.user, fun c hc => (hnamed.call c hc).symm ▸ hnamed.user⟩
  · obtain ⟨hauthen, hcall⟩ := author_tacAuthen h
    rw [hauthen, hcall]
    exact ⟨hs, by simp⟩
  · obtain ⟨hauthen, hcall⟩ := acct_tacAuthen h
    rw [hauthen, hcall]
    exact ⟨hs, by simp⟩
  · obtain rfl := Option.some.inj h
    exact ⟨hs, by simp [TacacsSessionContainer.ignore]⟩

/-- **In every run of a session**, on packets of all types, the name of every check is as
the packets bring it. -/
theorem session_names (hr : (session md5 cfg).Reaches h s) :
    WireName s.handler.user ∧ ∀ x ∈ h, ∀ c ∈ x.2.call, WireName c.1.user := by
  refine hr.invariant (I := fun h s => WireName s.handler.user ∧ ∀ x ∈ h, ∀ c ∈ x.2.call,
    WireName c.1.user) _ ⟨wireName_nil, by simp⟩ ?_
  intro h s i s' o _ inv hstep
  obtain ⟨r, hs⟩ := receive_ok hstep
  obtain ⟨huser, hcall⟩ := react_wireName (by exact inv.1) hs.react
  refine ⟨?_, fun x hx => ?_⟩
  · rw [hs.state]
    exact huser
  · rcases List.mem_append.mp hx with hold | hnew
    · exact inv.2 x hold
    · obtain rfl := List.mem_singleton.mp hnew
      rw [hs.out]
      exact hcall

/-- **The SELECT of a login** has the fixed tokens and the name as one literal exactly
when the name has no quote, and no backslash where backslashes escape. -/
theorem session_select_iff (hr : (session md5 cfg).Reaches h s) {x : Input × Processed} (hx : x ∈ h)
    {c : AuthenCall × Bool} (hc : c ∈ x.2.call) (esc : Option (UInt8 → UInt8)) :
    Sql.lex esc (selectHead ++ quoted c.1.user) = some (selectTokens ++ [.lit c.1.user]) ↔
      Sql.Plain esc c.1.user :=
  ((session_names hr).2 x hx c hc).lex_quoted_iff esc

end

end Tacppd
