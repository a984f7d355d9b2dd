/-
# The verdict on an authorization request

A request that has passed the service/protocol gate is refused exactly for one of
its own AVPs: a command or a command argument that the command rows do not permit,
or, where the device's default is deny, a mandatory AVP the record does not have.
No flag of one AVP reaches the next one, so the verdict does not depend on the
order of the rows or of the AVPs.
-/
import Tacppd.AuthorReview

namespace Tacppd

/-! ## One AVP -/

/-- The review refuses an AVP of the request.  The first argument says when the
patterns of a column match a value. -/
inductive DeniedBy (someMatch : (CmdAvp → Bytes) → Bytes → Prop) (authoriz : Bool)
    (rows : List UserAvp) (nasAvp : Bytes) : Prop
  | cmd : matchAttr nasAvp (str "cmd=") = true →
      ¬ someMatch CmdAvp.cmdperm (getValue nasAvp) ∨ someMatch CmdAvp.cmddeny (getValue nasAvp) →
      DeniedBy someMatch authoriz rows nasAvp
  | cmdArg : matchAttr nasAvp (str "cmd-arg=") = true → nasAvp ≠ str "cmd-arg=<cr>" →
      ¬ someMatch CmdAvp.argperm (getValue nasAvp) ∨ someMatch CmdAvp.argdeny (getValue nasAvp) →
      DeniedBy someMatch authoriz rows nasAvp
  | other : authoriz = false → nasAvp ≠ [] → matchAttr nasAvp (str "cmd=") = false →
      matchAttr nasAvp (str "cmd-arg=") = false → mandatory nasAvp = true →
      (∀ r ∈ rows, r.avp ≠ nasAvp) →
      (∀ r ∈ rows, ¬ (optional r.avp = true ∧ matchAttr r.avp nasAvp = true)) →
      DeniedBy someMatch authoriz rows nasAvp

/-- The code's refusal: only patterns that are not empty match. -/
def Denied (env : Env) (authoriz : Bool) (dbd : DbUser) (nasAvp : Bytes) : Prop :=
  DeniedBy (fun pattern value => SomeMatch env pattern value dbd.cmd) authoriz dbd.avp nasAvp

/-- A command is not a command argument. -/
theorem matchAttr_cmd_clash {s : Bytes} (h : matchAttr s (str "cmd=") = true) :
    matchAttr s (str "cmd-arg=") = false := by
  rw [Bool.eq_false_iff]
  intro h'
  have hclash := matchAttr_trans ((matchAttr_comm s _).symm.trans h) h'
  exact absurd hclash (by decide)

/-- The loops of steps a and b find nothing when no row serves the AVP. -/
theorem stepAB_eq_none_iff (rows : List UserAvp) (nasAvp : Bytes) :
    stepAB rows nasAvp = none ↔ (∀ r ∈ rows, r.avp ≠ nasAvp) ∧
      ∀ r ∈ rows, ¬ (optional r.avp = true ∧ matchAttr r.avp nasAvp = true) := by
  unfold stepAB
  rw [List.find?_eq_none, ← forall₂_and]
  refine forall₂_congr fun r _ => ?_
  rw [Bool.or_eq_true, not_or, scomp_iff, Bool.and_eq_true, and_comm (a := _ = true)]

theorem reviewMandatory_eq_none_iff (rows : List UserAvp) (nasAvp : Bytes) (authoriz : Bool) :
    reviewMandatory rows nasAvp authoriz = none ↔
      authoriz = false ∧ stepAB rows nasAvp = none := by
  unfold reviewMandatory
  cases stepAB rows nasAvp <;> cases authoriz <;> simp

section

variable {env : Env} {authoriz : Bool} {dbd : DbUser} {nasAvp : Bytes}

/-- What it takes to deny a command. -/
theorem denied_cmd_iff (hcmd : matchAttr nasAvp (str "cmd=") = true) :
    Denied env authoriz dbd nasAvp ↔ ¬ SomeMatch env CmdAvp.cmdperm (getValue nasAvp) dbd.cmd ∨
      SomeMatch env CmdAvp.cmddeny (getValue nasAvp) dbd.cmd := by
  refine ⟨?_, fun h => .cmd hcmd h⟩
  rintro (⟨-, h⟩ | ⟨harg, -, -⟩ | ⟨-, -, hno, -⟩)
  · exact h
  · rw [matchAttr_cmd_clash hcmd] at harg
    contradiction
  · rw [hcmd] at hno
    contradiction

/-- What it takes to deny a command argument. -/
theorem denied_cmdArg_iff (hcmd : matchAttr nasAvp (str "cmd=") = false)
    (harg : matchAttr nasAvp (str "cmd-arg=") = true) :
    Denied env authoriz dbd nasAvp ↔ nasAvp ≠ str "cmd-arg=<cr>" ∧
      (¬ SomeMatch env CmdAvp.argperm (getValue nasAvp) dbd.cmd ∨
        SomeMatch env CmdAvp.argdeny (getValue nasAvp) dbd.cmd) := by
  refine ⟨?_, fun ⟨hcr, h⟩ => .cmdArg harg hcr h⟩
  rintro (⟨hyes, -⟩ | ⟨-, hcr, h⟩ | ⟨-, -, -, hno, -⟩)
  · rw [hcmd] at hyes
    contradiction
  · exact ⟨hcr, h⟩
  · rw [harg] at hno
    contradiction

/-- What it takes to deny any other AVP. -/
theorem denied_other_iff (hnil : nasAvp ≠ []) (hcmd : matchAttr nasAvp (str "cmd=") = false)
    (harg : matchAttr nasAvp (str "cmd-arg=") = false) :
    Denied env authoriz dbd nasAvp ↔ mandatory nasAvp = true ∧ authoriz = false ∧
      (∀ r ∈ dbd.avp, r.avp ≠ nasAvp) ∧
        ∀ r ∈ dbd.avp, ¬ (optional r.avp = true ∧ matchAttr r.avp nasAvp = true) := by
  refine ⟨?_, fun ⟨hman, hdef, hne, hopt⟩ => .other hdef hnil hcmd harg hman hne hopt⟩
  rintro (⟨hyes, -⟩ | ⟨hyes, -, -⟩ | ⟨hdef, -, -, -, hman, hne, hopt⟩)
  · rw [hcmd] at hyes
    contradiction
  · rw [harg] at hyes
    contradiction
  · exact ⟨hman, hdef, hne, hopt⟩

end

/-- **One AVP.**  The review loop stops at an AVP exactly when it is denied. -/
theorem goesOn_eq_false_iff (env : Env) (authoriz : Bool) (dbd : DbUser) (nasAvp : Bytes) :
    goesOn env authoriz dbd nasAvp = false ↔ Denied env authoriz dbd nasAvp := by
  by_cases hnil : nasAvp = []
  · -- an empty AVP is passed over
    refine iff_of_false (by simp [goesOn, hnil]) ?_
    rintro (⟨h, -⟩ | ⟨h, -, -⟩ | ⟨-, h, -⟩)
    · simp [hnil, matchAttr] at h
    · simp [hnil, matchAttr] at h
    · exact h hnil
  have hgo : goesOn env authoriz dbd nasAvp = false ↔ reviewAvp env authoriz dbd nasAvp = none := by
    rw [goesOn, decide_eq_false hnil, Bool.false_or, Option.isSome_eq_false_iff,
      Option.isNone_iff_eq_none]
  -- the branches of the review, in its order
  rw [hgo, reviewAvp]
  cases hcmd : matchAttr nasAvp (str "cmd=")
  · rw [if_neg Bool.false_ne_true]
    cases harg : matchAttr nasAvp (str "cmd-arg=")
    · rw [if_neg Bool.false_ne_true, denied_other_iff hnil hcmd harg]
      cases hman : mandatory nasAvp
      · rw [if_neg Bool.false_ne_true]
        simp
      · rw [if_pos rfl, reviewMandatory_eq_none_iff, stepAB_eq_none_iff]
        simp only [true_and]
    · rw [if_pos rfl, denied_cmdArg_iff hcmd harg]
      by_cases hcr : str "cmd-arg=<cr>" = nasAvp
      · rw [if_pos ((scomp_iff _ _).mpr hcr)]
        exact iff_of_false (by simp) (fun h => h.1 hcr.symm)
      · rw [if_neg (fun h => hcr ((scomp_iff _ _).mp h)), review_permitted_eq_none_iff]
        exact (and_iff_right (Ne.symm hcr)).symm
  · rw [if_pos rfl, review_permitted_eq_none_iff, denied_cmd_iff hcmd]

/-- The order of the rows does not matter to the refusal of an AVP. -/
theorem Denied.perm {env : Env} {authoriz : Bool} {dbd : DbUser} {cmd : List CmdAvp}
    {avp : List UserAvp} (hcmd : cmd.Perm dbd.cmd) (havp : avp.Perm dbd.avp) (nasAvp : Bytes) :
    Denied env authoriz { dbd with cmd := cmd, avp := avp } nasAvp ↔
      Denied env authoriz dbd nasAvp := by
  have hmatch : (fun pattern value => SomeMatch env pattern value cmd) =
      fun pattern value => SomeMatch env pattern value dbd.cmd := by
    funext pattern value
    exact propext (SomeMatch.perm hcmd)
  unfold Denied
  simp only [hmatch]
  constructor
  · rintro (⟨h1, h2⟩ | ⟨h1, h2, h3⟩ | ⟨h1, h2, h3, h4, h5, h6, h7⟩)
    · exact .cmd h1 h2
    · exact .cmdArg h1 h2 h3
    · exact .other h1 h2 h3 h4 h5 (fun r hr => h6 r (havp.mem_iff.mpr hr))
        fun r hr => h7 r (havp.mem_iff.mpr hr)
  · rintro (⟨h1, h2⟩ | ⟨h1, h2, h3⟩ | ⟨h1, h2, h3, h4, h5, h6, h7⟩)
    · exact .cmd h1 h2
    · exact .cmdArg h1 h2 h3
    · exact .other h1 h2 h3 h4 h5 (fun r hr => h6 r (havp.mem_iff.mp hr))
        fun r hr => h7 r (havp.mem_iff.mp hr)

/-! ## The whole request -/

/-- The request was not refused for its service and protocol. -/
def PassedGate (rows : List UserAvp) (n : Named) : Prop :=
  n.curService = none ∨ gate (n.curService.getD []) (n.curProtocol.getD []) rows = true

theorem PassedGate.perm {rows rows' : List UserAvp} {n : Named} (h : rows'.Perm rows) :
    PassedGate rows' n ↔ PassedGate rows n := by
  unfold PassedGate
  rw [gate_iff, gate_iff]
  simp only [h.mem_iff]

/-- Only an empty request names no service. -/
theorem eq_nil_of_parseService {avpair : List Bytes} {n : Named}
    (hn : parseService avpair = some n) (hs : n.curService = none) : avpair = [] := by
  unfold parseService at hn
  split at hn
  · rfl
  · split at hn
    · contradiction
    · split at hn
      · split at hn <;>
        · obtain rfl := Option.some.inj hn
          contradiction
      · obtain rfl := Option.some.inj hn
        contradiction

/-- A protocol is read after a service only. -/
theorem curProtocol_eq_none {avpair : List Bytes} {n : Named}
    (hn : parseService avpair = some n) (hs : n.curService = none) : n.curProtocol = none := by
  rw [eq_nil_of_parseService hn hs] at hn
  obtain rfl := Option.some.inj hn
  rfl

theorem finish_status (avpair : List Bytes) (st : Review) : (finish avpair st).status ≠ .fail := by
  unfold finish
  split
  · simp
  · split <;> simp

/-- After the gate a request is refused for one of its AVPs. -/
theorem respond_fail_iff (env : Env) (authoriz : Bool) (dbd : DbUser) (avpair : List Bytes)
    (n : Named) :
    (respond env authoriz dbd avpair n).answer = some failAnswer ↔
      ∃ a ∈ avpair.drop n.startAv, Denied env authoriz dbd a := by
  unfold respond
  rw [reviewLoop_eq]
  by_cases hall : ∀ a ∈ avpair.drop n.startAv, goesOn env authoriz dbd a = true
  · rw [if_pos hall]
    refine iff_of_false ?_ ?_
    · simp only
      split
      · simp
      · next st _ =>
        intro h
        exact finish_status avpair st (congrArg AuthorAnswer.status (Option.some.inj h))
    · rintro ⟨a, ha, hden⟩
      rw [← goesOn_eq_false_iff, hall a ha] at hden
      contradiction
  · rw [if_neg hall]
    refine iff_of_true rfl ?_
    push Not at hall
    obtain ⟨a, ha, hstop⟩ := hall
    exact ⟨a, ha, (goesOn_eq_false_iff env authoriz dbd a).mp (Bool.eq_false_iff.mpr hstop)⟩

/-- A request for a service of the record is decided by the review. -/
theorem authorize_of_gate {env : Env} {authoriz : Bool} {dbd : DbUser} {req : AuthorRequest}
    {n : Named} (hfound : dbd.result = true) (hn : parseService req.avpair = some n)
    (hs : n.curService ≠ none)
    (hgate : gate (n.curService.getD []) (n.curProtocol.getD []) dbd.avp = true) :
    authorize env authoriz dbd req = respond env authoriz dbd req.avpair n := by
  simp [authorize, hfound, hn, hs, hgate]

/-- Nothing is given to a user who was not found. -/
theorem authorize_of_not_found {env : Env} {authoriz : Bool} {dbd : DbUser} {req : AuthorRequest}
    (hfound : dbd.result ≠ true) : authorize env authoriz dbd req = refused := by
  simp [authorize, hfound]

/-- Nothing is given for a service the gate refuses. -/
theorem authorize_of_shut {env : Env} {authoriz : Bool} {dbd : DbUser} {req : AuthorRequest}
    {n : Named} (hn : parseService req.avpair = some n) (hs : n.curService ≠ none)
    (hgate : gate (n.curService.getD []) (n.curProtocol.getD []) dbd.avp ≠ true) :
    authorize env authoriz dbd req = refused := by
  by_cases hfound : dbd.result = true
  · simp [authorize, hfound, hn, hs, hgate]
  · exact authorize_of_not_found hfound

/-- A request for a service that is not answered FAIL was found and has passed the
gate. -/
theorem passed_of_answer {env : Env} {authoriz : Bool} {dbd : DbUser} {req : AuthorRequest}
    {n : Named} {ans : AuthorAnswer} (hn : parseService req.avpair = some n)
    (hs : n.curService ≠ none) (hans : (authorize env authoriz dbd req).answer = some ans)
    (hpass : ans.status ≠ .fail) : dbd.result = true ∧
      gate (n.curService.getD []) (n.curProtocol.getD []) dbd.avp = true := by
  have hne : authorize env authoriz dbd req ≠ refused := by
    intro hrefused
    rw [hrefused] at hans
    exact hpass (congrArg AuthorAnswer.status (Option.some.inj hans)).symm
  constructor
  · by_contra hfound
    exact hne (authorize_of_not_found hfound)
  · by_contra hgate
    exact hne (authorize_of_shut hn hs hgate)

/-- A request without a service is never refused. -/
theorem authorize_of_no_service {env : Env} {authoriz : Bool} {dbd : DbUser} {req : AuthorRequest}
    {n : Named} (hfound : dbd.result = true) (hn : parseService req.avpair = some n)
    (hs : n.curService = none) : authorize env authoriz dbd req = ownValues dbd.avp := by
  simp [authorize, hfound, hn, hs, curProtocol_eq_none hn hs]

theorem ownValues_answer_ne (rows : List UserAvp) : (ownValues rows).answer ≠ some failAnswer := by
  unfold ownValues
  simp only
  split <;> simp [failAnswer]

/-- The verdict on a request that passed the gate. -/
theorem authorize_fail_iff {env : Env} {authoriz : Bool} {dbd : DbUser} {req : AuthorRequest}
    {n : Named} (hfound : dbd.result = true) (hn : parseService req.avpair = some n)
    (hgate : PassedGate dbd.avp n) :
    (authorize env authoriz dbd req).answer = some failAnswer ↔
      ∃ a ∈ req.avpair.drop n.startAv, Denied env authoriz dbd a := by
  by_cases hs : n.curService = none
  · rw [authorize_of_no_service hfound hn hs]
    refine iff_of_false (ownValues_answer_ne dbd.avp) ?_
    simp [eq_nil_of_parseService hn hs]
  · rw [authorize_of_gate hfound hn hs (hgate.resolve_left hs), respond_fail_iff]

/-- **The verdict**, for a request whose user was found and that passed the gate:
it is FAIL if and only if one of the AVPs after service and protocol is denied, and
no order of the command rows, of the AVP rows or of these AVPs changes it. -/
theorem authorize_verdict (env : Env) (authoriz : Bool) (dbd : DbUser) (req : AuthorRequest)
    (n : Named) (hfound : dbd.result = true) (hn : parseService req.avpair = some n)
    (hgate : PassedGate dbd.avp n) :
    ((authorize env authoriz dbd req).answer = some failAnswer ↔
      ∃ a ∈ req.avpair.drop n.startAv, Denied env authoriz dbd a) ∧
    ∀ (cmd : List CmdAvp) (avp : List UserAvp) (req' : AuthorRequest), cmd.Perm dbd.cmd →
      avp.Perm dbd.avp → parseService req'.avpair = some n →
      (req'.avpair.drop n.startAv).Perm (req.avpair.drop n.startAv) →
      ((authorize env authoriz { dbd with cmd := cmd, avp := avp } req').answer = some failAnswer ↔
        (authorize env authoriz dbd req).answer = some failAnswer) := by
  refine ⟨authorize_fail_iff hfound hn hgate, fun cmd avp req' hcmd havp hn' hreq => ?_⟩
  -- the other order has a verdict of the same kind, over the same members
  have hgate' : PassedGate avp n := (PassedGate.perm havp).mpr hgate
  have hfail' : (authorize env authoriz { dbd with cmd := cmd, avp := avp } req').answer
        = some failAnswer ↔ ∃ a ∈ req'.avpair.drop n.startAv,
          Denied env authoriz { dbd with cmd := cmd, avp := avp } a :=
    authorize_fail_iff hfound hn' hgate'
  rw [authorize_fail_iff hfound hn hgate, hfail']
  simp only [hreq.mem_iff, Denied.perm hcmd havp]

/-- A shell user may `show` and may not `reload`. -/
theorem authorize_verdict_reload :
    let dbd := openUser [⟨str "shell", [], []⟩] [⟨str "show", str "reload", [], []⟩] []
    (authorize (searchEnv dbd) true dbd ⟨6, 1, 1, 1, str "joe", [], [],
      [str "service=shell", str "cmd=reload"], by decide⟩).answer = some failAnswer := by
  intro dbd
  refine (authorize_verdict (searchEnv dbd) true dbd ⟨6, 1, 1, 1, str "joe", [], [],
    [str "service=shell", str "cmd=reload"], by decide⟩
    ⟨some (str "shell"), none, 1, [str "service=shell"]⟩ rfl (by decide)
    (.inr (by decide))).1.mpr ?_
  refine ⟨str "cmd=reload", by decide, .cmd (by decide) (.inr ?_)⟩
  exact ⟨⟨str "show", str "reload", [], []⟩, List.mem_singleton.mpr rfl, by decide, by decide⟩

/-- An empty permit column permits nothing, although the empty pattern is found in
every value. -/
theorem authorize_empty_cmdperm :
    let dbd := openUser [⟨str "shell", [], []⟩] [⟨[], str "reload", [], []⟩] []
    let req : AuthorRequest := ⟨6, 1, 1, 1, str "joe", [], [],
      [str "service=shell", str "cmd=show"], by decide⟩
    PassedGate dbd.avp ⟨some (str "shell"), none, 1, [str "service=shell"]⟩ ∧
      ¬ ((authorize (searchEnv dbd) true dbd req).answer = some failAnswer ↔
        ∃ a ∈ req.avpair.drop 1, DeniedBy (fun pattern value => ∃ row ∈ dbd.cmd,
          (searchEnv dbd).regexec (pattern row) value = true) true dbd.avp a) := by
  intro dbd req
  have hfail : (authorize (searchEnv dbd) true dbd req).answer = some failAnswer := by decide
  refine ⟨.inr (by decide), fun h => ?_⟩
  obtain ⟨a, ha, hden⟩ := h.mp hfail
  obtain rfl : a = str "cmd=show" := List.mem_singleton.mp ha
  rcases hden with ⟨-, hnone | ⟨row, hrow, hdeny⟩⟩ | ⟨harg, -, -⟩ | ⟨hdef, -⟩
  · exact hnone ⟨_, List.mem_singleton.mpr rfl, by decide⟩
  · obtain rfl := List.mem_singleton.mp hrow
    exact absurd hdeny (by decide)
  · exact absurd harg (by decide)
  · exact absurd hdef (by decide)

end Tacppd
