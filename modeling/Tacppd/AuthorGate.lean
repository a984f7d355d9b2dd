/-
# The service/protocol gate

The gate is there to refuse a request whose service and protocol the user does not
have.  It asks for `!flag_serv && !flag_proto`, and `flag_proto` is never set
without `flag_serv`, so in effect it asks for the service alone: a protocol that no
row of the service has passes.
-/
import Tacppd.AuthorVerdict

namespace Tacppd

/-- Some one row has both the service and the protocol. -/
def HasBoth (curService curProtocol : Bytes) (rows : List UserAvp) : Prop :=
  ∃ r ∈ rows, r.compareService curService = true ∧ r.compareProtocol curProtocol = true

/-- What the gate is for: PASS_ADD and PASS_REPL for a service and protocol that
some row has, and FAIL for all others. -/
structure GateSound (curService curProtocol : Bytes) (rows : List UserAvp)
    (answer : Option AuthorAnswer) : Prop where
  pass : ∀ a, answer = some a → a.status = .passAdd ∨ a.status = .passRepl →
    HasBoth curService curProtocol rows
  refuse : ¬ HasBoth curService curProtocol rows → answer = some failAnswer

theorem isOwn_eq_false_of_not_hasBoth {curService curProtocol : Bytes} {rows : List UserAvp}
    (h : ¬ HasBoth curService curProtocol rows) :
    ∀ r ∈ rows, r.isOwn curService curProtocol = false := by
  intro r hr
  rw [Bool.eq_false_iff]
  intro hown
  exact h ⟨r, hr, Bool.and_eq_true_iff.mp hown⟩

/-- A refusal is always sound. -/
theorem gateSound_of_fail {curService curProtocol : Bytes} {rows : List UserAvp} :
    GateSound curService curProtocol rows (some failAnswer) := by
  refine ⟨?_, fun _ => rfl⟩
  intro a ha hpass
  obtain rfl := Option.some.inj ha
  rcases hpass with h | h <;> cases h

/-- Every answer that is not a refusal passes. -/
theorem respond_pass {env : Env} {authoriz : Bool} {dbd : DbUser} {avpair : List Bytes} {n : Named}
    (hno : ¬ HasBoth (n.curService.getD []) (n.curProtocol.getD []) dbd.avp)
    (hden : ¬ ∃ a ∈ avpair.drop n.startAv, Denied env authoriz dbd a) :
    ∃ a, (respond env authoriz dbd avpair n).answer = some a ∧
      (a.status = .passAdd ∨ a.status = .passRepl) := by
  have hall : ∀ a ∈ avpair.drop n.startAv, goesOn env authoriz dbd a = true := by
    intro a ha
    by_contra hstop
    exact hden ⟨a, ha, (goesOn_eq_false_iff env authoriz dbd a).mp (Bool.eq_false_iff.mpr hstop)⟩
  unfold respond
  rw [reviewLoop_eq, if_pos hall]
  simp only
  rw [addLoop_of_not_own _ (isOwn_eq_false_of_not_hasBoth hno)]
  refine ⟨_, rfl, ?_⟩
  cases hstatus : (finish avpair _).status
  · exact .inl rfl
  · exact .inr rfl
  · exact absurd hstatus (finish_status _ _)

/-- **The gate, exactly.**  For every request that carries a service, every record
and device: the answer is the one the gate is for if and only if, when the user was
found and some row has the service, some row has both service and protocol or one
of the AVPs of the request is denied. -/
theorem authorize_gateSound_iff (env : Env) (authoriz : Bool) (dbd : DbUser) (req : AuthorRequest)
    (n : Named) (service : Bytes) (hn : parseService req.avpair = some n)
    (hs : n.curService = some service) :
    GateSound service (n.curProtocol.getD []) dbd.avp (authorize env authoriz dbd req).answer ↔
      (dbd.result = true → (∃ r ∈ dbd.avp, r.compareService service = true) →
        HasBoth service (n.curProtocol.getD []) dbd.avp ∨
          ∃ a ∈ req.avpair.drop n.startAv, Denied env authoriz dbd a) := by
  have hserv : n.curService.getD [] = service := by rw [hs, Option.getD_some]
  have hne : n.curService ≠ none := by simp [hs]
  by_cases hfound : dbd.result = true
  · by_cases hgate : ∃ r ∈ dbd.avp, r.compareService service = true
    · have hopen : gate (n.curService.getD []) (n.curProtocol.getD []) dbd.avp = true := by
        rw [hserv]
        exact (gate_iff _ _ _).mpr hgate
      rw [authorize_of_gate hfound hn hne hopen]
      constructor
      · -- without such a row and without a denied AVP the answer passes
        intro hsound _ _
        by_contra hcon
        rw [not_or] at hcon
        obtain ⟨a, ha, hpass⟩ := respond_pass (hserv ▸ hcon.1) hcon.2
        exact hcon.1 (hsound.pass a ha hpass)
      · intro hcond
        rcases hcond hfound hgate with hboth | hden
        · exact ⟨fun _ _ _ => hboth, fun hno => absurd hboth hno⟩
        · rw [(respond_fail_iff env authoriz dbd req.avpair n).mpr hden]
          exact gateSound_of_fail
    · -- no row of the service: the gate itself refuses
      have hshut : gate (n.curService.getD []) (n.curProtocol.getD []) dbd.avp ≠ true := by
        rw [hserv]
        exact fun h => hgate ((gate_iff _ _ _).mp h)
      rw [authorize_of_shut hn hne hshut]
      exact iff_of_true gateSound_of_fail fun _ h => absurd h hgate
  · rw [authorize_of_not_found hfound]
    exact iff_of_true gateSound_of_fail fun h => absurd h hfound

/-- A request for `ppp` and `ip`, which a row has. -/
theorem authorize_gateSound_ppp :
    let dbd := openUser [⟨str "ppp", str "ip", str "addr=10.0.0.1"⟩] [] []
    GateSound (str "ppp") (str "ip") dbd.avp (authorize (searchEnv dbd) true dbd ⟨6, 1, 1, 1,
      str "joe", [], [], [str "service=ppp", str "protocol=ip"], by decide⟩).answer := by
  intro dbd
  refine (authorize_gateSound_iff (searchEnv dbd) true dbd ⟨6, 1, 1, 1, str "joe", [], [],
    [str "service=ppp", str "protocol=ip"], by decide⟩
    ⟨some (str "ppp"), some (str "ip"), 2, [str "service=ppp", str "protocol=ip"]⟩ (str "ppp")
    rfl rfl).mpr fun _ _ => .inl ?_
  exact ⟨⟨str "ppp", str "ip", str "addr=10.0.0.1"⟩, List.mem_singleton.mpr rfl, by decide,
    by decide⟩

/-- A user with `ppp` for `ip` only gets PASS_ADD on a request for `ppp` and `ipx`. -/
theorem authorize_unknown_protocol :
    let dbd := openUser [⟨str "ppp", str "ip", str "addr=10.0.0.1"⟩] [] []
    (authorize (searchEnv dbd) true dbd ⟨6, 1, 1, 1, str "joe", [], [],
        [str "service=ppp", str "protocol=ipx"], by decide⟩).answer = some ⟨.passAdd, none⟩ ∧
      ¬ GateSound (str "ppp") (str "ipx") dbd.avp (authorize (searchEnv dbd) true dbd ⟨6, 1, 1, 1,
        str "joe", [], [], [str "service=ppp", str "protocol=ipx"], by decide⟩).answer := by
  intro dbd
  refine ⟨by decide, fun h => ?_⟩
  obtain ⟨r, hr, -, hproto⟩ := h.pass ⟨.passAdd, none⟩ (by decide) (.inl rfl)
  obtain rfl := List.mem_singleton.mp hr
  exact absurd hproto (by decide)

end Tacppd
