/-
# The AVPs of an answer

A NAS that gets PASS_ADD adds the AVPs of the reply to its own, and one that gets
PASS_REPL takes those of the reply only.  After a request for a service that is not
refused it should know the attribute of every mandatory AVP the user has for the
service.

Two places miss this.  Step k passes over a row with a `*` anywhere in it, also
when it is mandatory.  And for PASS_ADD the reply is what stands on the list after
as many AVPs as the request has, which is right only when every AVP of the request
has gone on the list: commands, command arguments and empty AVPs have not, and for
each of them one addition is lost.  `authorize_complete_iff` says when nothing is
missed.
-/
import Tacppd.AuthorLeak

namespace Tacppd

/-! ## What an answer should hold -/

/-- The AVPs the NAS has after an answer. -/
def effectiveAvps (avpair : List Bytes) (ans : AuthorAnswer) : List Bytes :=
  match ans.status with
  | .passAdd => avpair ++ ans.avpair.getD []
  | _ => ans.avpair.getD []

/-- The answer misses nothing: every mandatory row of the service has its attribute
among the AVPs of the NAS, and no AVP added in step k is lost. -/
structure Complete (curService curProtocol : Bytes) (rows : List UserAvp) (avpair : List Bytes)
    (ans : AuthorAnswer) (added : List UserAvp) : Prop where
  present : ∀ r ∈ rows, r.isOwn curService curProtocol = true → r.avp ≠ [] →
    mandatory r.avp = true → ∃ x ∈ effectiveAvps avpair ans, matchAttr r.avp x = true
  kept : (added.map UserAvp.avp).Sublist (ans.avpair.getD [])

/-- Some optional AVP of the request has no equal row, so the answer is PASS_REPL. -/
def Replaces (rows : List UserAvp) (avps : List Bytes) : Prop :=
  ∃ a ∈ avps, Plain a ∧ mandatory a = false ∧ ∀ r ∈ rows, r.avp ≠ a

/-- An AVP of the request has its attribute in the answer list of a PASS_REPL: it
names the service or the protocol, or the default is permit, or some row has its
attribute. -/
def Carried (authoriz : Bool) (rows : List UserAvp) (avpair : List Bytes) (startAv : ℕ)
    (a : Bytes) : Prop :=
  a ∈ avpair.take startAv ∨
    (a ∈ avpair.drop startAv ∧ Plain a ∧
      (authoriz = true ∨ ∃ r ∈ rows, matchAttr a r.avp = true))

/-- Each mandatory row that step k passes over for its `*` has its attribute from
another row of the service or from the request. -/
def SkippedSupplied (curService curProtocol : Bytes) (authoriz : Bool) (rows : List UserAvp)
    (avpair : List Bytes) (startAv : ℕ) : Prop :=
  ∀ r ∈ rows, r.isOwn curService curProtocol = true → mandatory r.avp = true →
    optional r.avp = true →
    (∃ r' ∈ rows, r'.isEligible curService curProtocol ∧ matchAttr r.avp r'.avp = true) ∨
      ∃ a ∈ avpair, (Replaces rows (avpair.drop startAv) →
        Carried authoriz rows avpair startAv a) ∧ matchAttr r.avp a = true

instance (a : Bytes) : Decidable (Plain a) := inferInstanceAs (Decidable (_ ∧ _ ∧ _))

/-- The slice of PASS_ADD takes no addition away: the answer is PASS_REPL, or all
AVPs of the request are plain, or there is nothing to add. -/
def NothingLost (curService curProtocol : Bytes) (rows : List UserAvp) (avpair : List Bytes)
    (startAv : ℕ) : Prop :=
  Replaces rows (avpair.drop startAv) ∨ (∀ a ∈ avpair.drop startAv, Plain a) ∨
    ∀ r ∈ rows, r.isEligible curService curProtocol →
      ∃ x ∈ avpair.take startAv ++ (avpair.drop startAv).filter fun a => decide (Plain a),
        matchAttr r.avp x = true

/-! ## What the review puts on the list -/

/-- All the review can do to the answer list for a plain AVP it lets through. -/
inductive PlainEffect (authoriz : Bool) (rows : List UserAvp) (a : Bytes) : Step → Prop
  /-- Steps a, b, d and e. -/
  | copied (row : Option UserAvp) : (mandatory a = true ∨ ∃ r ∈ rows, r.avp = a) →
      (authoriz = true ∨ ∃ r ∈ rows, r.avp = a ∨ matchAttr r.avp a = true) →
      PlainEffect authoriz rows a ⟨some a, false, row⟩
  /-- Steps f, g and h. -/
  | replaced (r : UserAvp) : mandatory a = false → (∀ r ∈ rows, r.avp ≠ a) → r ∈ rows →
      matchAttr a r.avp = true → PlainEffect authoriz rows a ⟨some r.avp, true, some r⟩
  /-- Step i. -/
  | dropped : mandatory a = false → (∀ r ∈ rows, r.avp ≠ a) → authoriz = false →
      (∀ r ∈ rows, matchAttr a r.avp = false) → PlainEffect authoriz rows a ⟨none, true, none⟩
  /-- Step j. -/
  | kept : mandatory a = false → (∀ r ∈ rows, r.avp ≠ a) → authoriz = true →
      PlainEffect authoriz rows a ⟨some a, true, none⟩

theorem plainEffect_mandatory {rows : List UserAvp} {a : Bytes} {authoriz : Bool} {s : Step}
    (hman : mandatory a = true) (h : reviewMandatory rows a authoriz = some s) :
    PlainEffect authoriz rows a s := by
  unfold reviewMandatory at h
  cases hab : stepAB rows a with
  | some r =>
    rw [hab] at h
    obtain rfl := Option.some.inj h
    obtain ⟨haccept, -⟩ := (stepAB_eq_some_iff rows a r).mp hab
    have hr := List.mem_of_find?_eq_some hab
    exact .copied _ (.inl hman) (.inr ⟨r, hr, haccept.imp_right And.left⟩)
  | none =>
    rw [hab] at h
    cases authoriz with
    | false => simp at h
    | true =>
      obtain rfl := Option.some.inj h
      exact .copied _ (.inl hman) (.inl rfl)

theorem plainEffect_optional {rows : List UserAvp} {a : Bytes} (authoriz : Bool)
    (hman : mandatory a = false) :
    PlainEffect authoriz rows a (reviewOptional rows a authoriz) := by
  unfold reviewOptional
  cases he : stepE rows a with
  | some r =>
    obtain ⟨hequal, -⟩ := (stepE_eq_some_iff rows a r).mp he
    have hr := List.mem_of_find?_eq_some he
    exact .copied _ (.inr ⟨r, hr, hequal⟩) (.inr ⟨r, hr, .inl hequal⟩)
  | none =>
    have hne := (stepE_eq_none_iff rows a).mp he
    cases hf : stepF rows a with
    | some r =>
      obtain ⟨h, -⟩ := (stepF_eq_some_iff rows a r).mp hf
      exact .replaced r hman hne (List.mem_of_find?_eq_some hf) h.2
    | none =>
      cases hg : stepG rows a with
      | some r =>
        obtain ⟨h, -⟩ := (stepG_eq_some_iff rows a r).mp hg
        exact .replaced r hman hne (List.mem_of_find?_eq_some hg) h.2.1
      | none =>
        cases hh : stepH rows a with
        | some r =>
          obtain ⟨h, -⟩ := (stepH_eq_some_iff rows a r).mp hh
          exact .replaced r hman hne (List.mem_of_find?_eq_some hh) h.2
        | none =>
          cases authoriz with
          | true => exact .kept hman hne rfl
          | false =>
            -- steps f and h together look at every row
            refine .dropped hman hne rfl fun r hr => ?_
            have hnf := (stepF_eq_none_iff rows a).mp hf r hr
            have hnh := List.find?_eq_none.mp hh r hr
            rw [ReplacesMandatory] at hnf
            cases hrm : mandatory r.avp <;> simp_all

section

variable {env : Env} {authoriz : Bool} {dbd : DbUser}

/-- **One plain AVP** that the review lets through. -/
theorem effect_plain {a : Bytes} (hplain : Plain a) (hgo : goesOn env authoriz dbd a = true) :
    PlainEffect authoriz dbd.avp a (effect env authoriz dbd a) := by
  have hsome : (reviewAvp env authoriz dbd a).isSome = true := by
    simpa [goesOn, hplain.1] using hgo
  obtain ⟨s, hs⟩ := Option.isSome_iff_exists.mp hsome
  rw [effect, if_neg hplain.1, hs, Option.getD_some]
  rw [reviewAvp_of_plain env authoriz dbd hplain] at hs
  cases hman : mandatory a
  · rw [hman, if_neg Bool.false_ne_true] at hs
    obtain rfl := Option.some.inj hs
    exact plainEffect_optional authoriz hman
  · rw [hman, if_pos rfl] at hs
    exact plainEffect_mandatory hman hs

/-- `replaced` counts the optional AVPs without an equal row. -/
theorem effect_replaces_iff {a : Bytes} (hgo : goesOn env authoriz dbd a = true) :
    (effect env authoriz dbd a).replaces = true ↔
      Plain a ∧ mandatory a = false ∧ ∀ r ∈ dbd.avp, r.avp ≠ a := by
  by_cases hplain : Plain a
  · have h := effect_plain hplain hgo
    generalize effect env authoriz dbd a = put at h ⊢
    simp only [hplain, true_and]
    cases h with
    | copied row hcopy _ =>
      refine iff_of_false Bool.false_ne_true ?_
      rintro ⟨hman, hne⟩
      rcases hcopy with h | ⟨r, hr, hequal⟩
      · rw [hman] at h
        contradiction
      · exact hne r hr hequal
    | replaced r hman hne _ _ => exact iff_of_true rfl ⟨hman, hne⟩
    | dropped hman hne _ _ => exact iff_of_true rfl ⟨hman, hne⟩
    | kept hman hne _ => exact iff_of_true rfl ⟨hman, hne⟩
  · simp [effect_of_not_plain env authoriz dbd hplain, hplain, Step.skip]

/-- Without a replacement a plain AVP goes on the list as it is, and no other does. -/
theorem effect_put_of_keeps {a : Bytes} (hgo : goesOn env authoriz dbd a = true)
    (hrep : (effect env authoriz dbd a).replaces = false) :
    (effect env authoriz dbd a).put.toList = [a].filter fun a => decide (Plain a) := by
  by_cases hplain : Plain a
  · have h := effect_plain hplain hgo
    generalize effect env authoriz dbd a = put at h hrep ⊢
    cases h with
    | copied row _ _ => simp [hplain]
    | replaced r _ _ _ _ => exact absurd hrep (by simp)
    | dropped _ _ _ _ => exact absurd hrep (by simp)
    | kept _ _ _ => exact absurd hrep (by simp)
  · simp [effect_of_not_plain env authoriz dbd hplain, hplain, Step.skip]

/-- What an AVP of the request puts on the list has its attribute, and it puts
something there unless the default is deny and no row has the attribute. -/
theorem effect_put_match {a : Bytes} (hgo : goesOn env authoriz dbd a = true) (s : Bytes) :
    (∃ x ∈ (effect env authoriz dbd a).put, matchAttr s x = true) ↔
      Plain a ∧ matchAttr s a = true ∧
        (authoriz = true ∨ ∃ r ∈ dbd.avp, matchAttr a r.avp = true) := by
  by_cases hplain : Plain a
  · have h := effect_plain hplain hgo
    generalize effect env authoriz dbd a = put at h ⊢
    simp only [hplain, true_and]
    cases h with
    | copied row _ hcarry =>
      simp only [Option.mem_def, Option.some.injEq, exists_eq_left']
      refine ⟨fun hs => ⟨hs, hcarry.imp_right ?_⟩, And.left⟩
      have hself : matchAttr a a = true := matchAttr_trans ((matchAttr_comm a s).trans hs) hs
      rintro ⟨r, hr, hequal | hmatch⟩
      · exact ⟨r, hr, hequal.symm ▸ hself⟩
      · exact ⟨r, hr, (matchAttr_comm a r.avp).trans hmatch⟩
    | replaced r _ _ hr hmatch =>
      simp only [Option.mem_def, Option.some.injEq, exists_eq_left']
      constructor
      · intro hs
        exact ⟨matchAttr_trans hs ((matchAttr_comm r.avp a).trans hmatch), .inr ⟨r, hr, hmatch⟩⟩
      · rintro ⟨hs, -⟩
        exact matchAttr_trans hs hmatch
    | dropped _ _ hdef hno =>
      refine iff_of_false (by simp) ?_
      rintro ⟨-, h | ⟨r, hr, hmatch⟩⟩
      · rw [hdef] at h
        contradiction
      · rw [hno r hr] at hmatch
        contradiction
    | kept _ _ hdef =>
      simp only [Option.mem_def, Option.some.injEq, exists_eq_left']
      exact ⟨fun hs => ⟨hs, .inl hdef⟩, And.left⟩
  · simp [effect_of_not_plain env authoriz dbd hplain, hplain, Step.skip]

/-! ## The list before step k -/

/-- The answer list after the review of the request. -/
def reviewList (env : Env) (authoriz : Bool) (dbd : DbUser) (avpair : List Bytes) (n : Named) :
    Review :=
  Review.addEffects env authoriz dbd ⟨n.bavpair, 0, [], []⟩ (avpair.drop n.startAv)

/-- The AVPs read for service and protocol are the first ones of the request. -/
theorem parseService_bavpair {avpair : List Bytes} {n : Named}
    (hn : parseService avpair = some n) : n.bavpair = avpair.take n.startAv := by
  unfold parseService at hn
  split at hn
  · obtain rfl := Option.some.inj hn
    rfl
  · split at hn
    · contradiction
    · split at hn
      · split at hn
        · obtain rfl := Option.some.inj hn
          rfl
        · obtain rfl := Option.some.inj hn
          rfl
      · obtain rfl := Option.some.inj hn
        rfl

variable {avpair : List Bytes} {n : Named}

theorem reviewList_bavpair (hn : parseService avpair = some n) :
    (reviewList env authoriz dbd avpair n).bavpair = avpair.take n.startAv ++
      (avpair.drop n.startAv).flatMap fun a => (effect env authoriz dbd a).put.toList := by
  rw [reviewList, addEffects_bavpair, parseService_bavpair hn]

theorem reviewList_replaced_pos
    (hgo : ∀ a ∈ avpair.drop n.startAv, goesOn env authoriz dbd a = true) :
    0 < (reviewList env authoriz dbd avpair n).replaced ↔
      Replaces dbd.avp (avpair.drop n.startAv) := by
  rw [reviewList, addEffects_replaced_pos]
  simp only [lt_irrefl, false_or]
  exact exists_congr fun a => and_congr_right fun ha => effect_replaces_iff (hgo a ha)

/-- On the list a text finds its attribute exactly where the request carries it. -/
theorem reviewList_match_iff (hn : parseService avpair = some n)
    (hgo : ∀ a ∈ avpair.drop n.startAv, goesOn env authoriz dbd a = true) (s : Bytes) :
    (∃ x ∈ (reviewList env authoriz dbd avpair n).bavpair, matchAttr s x = true) ↔
      ∃ a ∈ avpair, Carried authoriz dbd.avp avpair n.startAv a ∧ matchAttr s a = true := by
  rw [reviewList_bavpair hn]
  constructor
  · rintro ⟨x, hx, hmatch⟩
    rcases List.mem_append.mp hx with htake | hput
    · exact ⟨x, List.mem_of_mem_take htake, .inl htake, hmatch⟩
    · obtain ⟨a, ha, hxa⟩ := List.mem_flatMap.mp hput
      obtain ⟨hplain, hsa, hcarry⟩ := (effect_put_match (hgo a ha) s).mp
        ⟨x, Option.mem_toList.mp hxa, hmatch⟩
      exact ⟨a, List.mem_of_mem_drop ha, .inr ⟨ha, hplain, hcarry⟩, hsa⟩
  · rintro ⟨a, -, htake | ⟨ha, hplain, hcarry⟩, hmatch⟩
    · exact ⟨a, List.mem_append_left _ htake, hmatch⟩
    · obtain ⟨x, hx, hsx⟩ := (effect_put_match (hgo a ha) s).mpr ⟨hplain, hmatch, hcarry⟩
      exact ⟨x, List.mem_append_right _ (List.mem_flatMap.mpr ⟨a, ha, Option.mem_toList.mpr hx⟩),
        hsx⟩

/-- Without a replacement the list is the request without its commands, command
arguments and empty AVPs. -/
theorem reviewList_bavpair_of_keeps (hn : parseService avpair = some n)
    (hgo : ∀ a ∈ avpair.drop n.startAv, goesOn env authoriz dbd a = true)
    (hrep : ¬ Replaces dbd.avp (avpair.drop n.startAv)) :
    (reviewList env authoriz dbd avpair n).bavpair = avpair.take n.startAv ++
      (avpair.drop n.startAv).filter fun a => decide (Plain a) := by
  rw [reviewList_bavpair hn]
  refine congrArg _ ?_
  generalize avpair.drop n.startAv = avps at hgo hrep
  induction avps with
  | nil => rfl
  | cons a rest ih =>
    have hkeep : (effect env authoriz dbd a).replaces = false := by
      rw [Bool.eq_false_iff]
      intro h
      exact hrep ⟨a, .head _, (effect_replaces_iff (hgo a (.head _))).mp h⟩
    rw [List.flatMap_cons, effect_put_of_keeps (hgo a (.head _)) hkeep,
      ih (fun b hb => hgo b (.tail _ hb))
        fun ⟨b, hb, h⟩ => hrep ⟨b, .tail _ hb, h⟩, ← List.filter_append]
    rfl

/-- An answer after the gate that is not FAIL has gone through the review and
step k. -/
theorem respond_of_answer {ans : AuthorAnswer}
    (hans : (respond env authoriz dbd avpair n).answer = some ans) (hpass : ans.status ≠ .fail) :
    (∀ a ∈ avpair.drop n.startAv, goesOn env authoriz dbd a = true) ∧
      ∃ st, Extends (n.curService.getD []) (n.curProtocol.getD []) dbd.avp
          (reviewList env authoriz dbd avpair n) st (respond env authoriz dbd avpair n).added ∧
        ans = finish avpair st := by
  unfold respond at hans ⊢
  rw [reviewLoop_eq] at hans ⊢
  by_cases hgo : ∀ a ∈ avpair.drop n.startAv, goesOn env authoriz dbd a = true
  · rw [if_pos hgo] at hans ⊢
    refine ⟨hgo, ?_⟩
    simp only at hans ⊢
    cases hadd : addLoop (n.curService.getD []) (n.curProtocol.getD [])
      (Review.addEffects env authoriz dbd ⟨n.bavpair, 0, [], []⟩ (avpair.drop n.startAv))
      dbd.avp with
    | none => simp [hadd] at hans
    | some st =>
      rw [hadd] at hans
      obtain ⟨news, hext⟩ := addLoop_spec hadd
      refine ⟨st, ?_, (Option.some.inj hans).symm⟩
      have hnews : st.added = news := by
        rw [hext.added, addEffects_added, List.nil_append]
      show Extends _ _ _ _ _ st.added
      rw [hnews]
      exact hext
  · rw [if_neg hgo] at hans
    obtain rfl := Option.some.inj hans
    exact absurd rfl hpass

/-! ## The list after step k -/

section

variable {curService curProtocol : Bytes} {rows : List UserAvp} {st st' : Review}
  {news : List UserAvp}

/-- After step k a text finds its attribute where it found it before or in an
eligible row. -/
theorem Extends.match_iff (h : Extends curService curProtocol rows st st' news) (s : Bytes) :
    (∃ x ∈ st'.bavpair, matchAttr s x = true) ↔
      (∃ r ∈ rows, r.isEligible curService curProtocol ∧ matchAttr s r.avp = true) ∨
        ∃ x ∈ st.bavpair, matchAttr s x = true := by
  constructor
  · rintro ⟨x, hx, hmatch⟩
    rw [h.bavpair] at hx
    rcases List.mem_append.mp hx with hx | hx
    · exact .inr ⟨x, hx, hmatch⟩
    · obtain ⟨r, hr, rfl⟩ := List.mem_map.mp hx
      obtain ⟨hmem, helig⟩ := h.eligible r hr
      exact .inl ⟨r, hmem, helig, hmatch⟩
  · rintro (⟨r, hr, helig, hmatch⟩ | ⟨x, hx, hmatch⟩)
    · rcases h.covers r hr helig with hnew | ⟨x, hx, hrx⟩
      · exact ⟨r.avp, h.bavpair ▸ List.mem_append_right _ (List.mem_map_of_mem hnew), hmatch⟩
      · exact ⟨x, hx, matchAttr_trans hmatch hrx⟩
    · exact ⟨x, h.bavpair ▸ List.mem_append_left _ hx, hmatch⟩

/-- A row of the service without a `*` needs nothing from the request. -/
theorem match_of_eligible {r : UserAvp} {p : Prop} (hr : r ∈ rows)
    (hown : r.isOwn curService curProtocol = true) (hnil : r.avp ≠ [])
    (hman : mandatory r.avp = true) (hopt : optional r.avp = false) :
    (∃ r' ∈ rows, r'.isEligible curService curProtocol ∧ matchAttr r.avp r'.avp = true) ∨ p :=
  .inl ⟨r, hr, ⟨hown, hopt, hnil⟩, matchAttr_self hman⟩

/-- What is asked of the mandatory rows is a condition on those with a `*` only. -/
theorem forall_own_iff (q : Bytes → Prop) :
    (∀ r ∈ rows, r.isOwn curService curProtocol = true → r.avp ≠ [] → mandatory r.avp = true →
      (∃ r' ∈ rows, r'.isEligible curService curProtocol ∧ matchAttr r.avp r'.avp = true) ∨
        q r.avp) ↔
    ∀ r ∈ rows, r.isOwn curService curProtocol = true → mandatory r.avp = true →
      optional r.avp = true →
      (∃ r' ∈ rows, r'.isEligible curService curProtocol ∧ matchAttr r.avp r'.avp = true) ∨
        q r.avp := by
  constructor
  · intro h r hr hown hman _
    refine h r hr hown ?_ hman
    rintro hnil
    simp [hnil, mandatory] at hman
  · intro h r hr hown hnil hman
    cases hopt : optional r.avp
    · exact match_of_eligible hr hown hnil hman hopt
    · exact h r hr hown hman hopt

end

/-! ## The two kinds of answers -/

/-- A request whose answer is made: it has gone through the review, and step k has made
`st` of the answer list with the additions `news`. -/
structure Answered (env : Env) (authoriz : Bool) (dbd : DbUser) (avpair : List Bytes) (n : Named)
    (service protocol : Bytes) (st : Review) (news : List UserAvp) : Prop where
  parsed : parseService avpair = some n
  reviewed : ∀ a ∈ avpair.drop n.startAv, goesOn env authoriz dbd a = true
  extended : Extends service protocol dbd.avp (reviewList env authoriz dbd avpair n) st news

variable {service protocol : Bytes} {st : Review} {news : List UserAvp}

/-- PASS_REPL sends the whole list. -/
theorem complete_iff_of_replaces
    (hmade : Answered env authoriz dbd avpair n service protocol st news)
    (hrep : Replaces dbd.avp (avpair.drop n.startAv)) :
    Complete service protocol dbd.avp avpair (finish avpair st) news ↔
      SkippedSupplied service protocol authoriz dbd.avp avpair n.startAv := by
  have hfinish : finish avpair st = ⟨.passRepl, some st.bavpair⟩ := by
    rw [finish, if_pos]
    rw [hmade.extended.replaced]
    exact (reviewList_replaced_pos hmade.reviewed).mpr hrep
  have hkept : (news.map UserAvp.avp).Sublist st.bavpair :=
    hmade.extended.bavpair ▸ List.sublist_append_right _ _
  have hpresent : ∀ s, (∃ x ∈ effectiveAvps avpair ⟨.passRepl, some st.bavpair⟩,
      matchAttr s x = true) ↔
        (∃ r ∈ dbd.avp, r.isEligible service protocol ∧ matchAttr s r.avp = true) ∨
          ∃ a ∈ avpair, (Replaces dbd.avp (avpair.drop n.startAv) →
            Carried authoriz dbd.avp avpair n.startAv a) ∧ matchAttr s a = true := by
    intro s
    simp only [hrep, forall_const, ← reviewList_match_iff hmade.parsed hmade.reviewed]
    exact hmade.extended.match_iff s
  rw [hfinish]
  constructor
  · intro h
    refine (forall_own_iff fun s => ∃ a ∈ avpair, (Replaces dbd.avp (avpair.drop n.startAv) →
      Carried authoriz dbd.avp avpair n.startAv a) ∧ matchAttr s a = true).mp
        fun r hr hown hnil hman => ?_
    exact (hpresent r.avp).mp (h.present r hr hown hnil hman)
  · intro h
    refine ⟨fun r hr hown hnil hman => ?_, hkept⟩
    exact (hpresent r.avp).mpr ((forall_own_iff fun s => ∃ a ∈ avpair,
      (Replaces dbd.avp (avpair.drop n.startAv) → Carried authoriz dbd.avp avpair n.startAv a) ∧
        matchAttr s a = true).mpr h r hr hown hnil hman)

/-- PASS_ADD keeps the additions after as many as the request has AVPs that did not
go on the list. -/
theorem finish_of_keeps
    (hmade : Answered env authoriz dbd avpair n service protocol st news)
    (hrep : ¬ Replaces dbd.avp (avpair.drop n.startAv)) :
    (finish avpair st).status = .passAdd ∧
      (finish avpair st).avpair.getD [] = (news.map UserAvp.avp).drop
        ((avpair.drop n.startAv).length -
          ((avpair.drop n.startAv).filter fun a => decide (Plain a)).length) := by
  have hzero : ¬ 0 < st.replaced := by
    rw [hmade.extended.replaced, reviewList_replaced_pos hmade.reviewed]
    exact hrep
  have hadded : st.added = news := by
    rw [hmade.extended.added, reviewList, addEffects_added, List.nil_append]
  rw [finish, if_neg hzero, hadded]
  by_cases hnews : news = []
  · simp [hnews]
  · rw [if_pos hnews]
    refine ⟨rfl, ?_⟩
    have hnonempty : ∀ x ∈ news.map UserAvp.avp, decide (x ≠ []) = true := by
      intro x hx
      obtain ⟨r, hr, rfl⟩ := List.mem_map.mp hx
      exact decide_eq_true (hmade.extended.eligible r hr).2.2.2
    have hlist := reviewList_bavpair_of_keeps hmade.parsed hmade.reviewed hrep
    -- the slice starts where the request ends, which is behind the end of the reviewed list
    have hlen : (reviewList env authoriz dbd avpair n).bavpair.length ≤ avpair.length := by
      have hfilter := List.length_filter_le (fun a => decide (Plain a)) (avpair.drop n.startAv)
      rw [hlist, List.length_append]
      simp only [List.length_take, List.length_drop] at hfilter ⊢
      omega
    have hcount : avpair.length - (reviewList env authoriz dbd avpair n).bavpair.length =
        (avpair.drop n.startAv).length -
          ((avpair.drop n.startAv).filter fun a => decide (Plain a)).length := by
      rw [hlist, List.length_append]
      simp only [List.length_take, List.length_drop]
      omega
    calc ((st.bavpair.drop avpair.length).filter fun x => decide (x ≠ []))
        = (((news.map UserAvp.avp).drop (avpair.length -
            (reviewList env authoriz dbd avpair n).bavpair.length)).filter
              fun x => decide (x ≠ [])) := by
          rw [hmade.extended.bavpair, List.drop_append, List.drop_eq_nil_of_le hlen,
            List.nil_append]
      _ = (news.map UserAvp.avp).drop (avpair.length -
            (reviewList env authoriz dbd avpair n).bavpair.length) :=
          List.filter_eq_self.mpr fun x hx => hnonempty x (List.mem_of_mem_drop hx)
      _ = _ := by rw [hcount]

/-- A list is kept by a drop only when nothing is dropped or there is nothing. -/
theorem sublist_drop_iff {α : Type*} (l : List α) (k : ℕ) :
    l.Sublist (l.drop k) ↔ k = 0 ∨ l = [] := by
  constructor
  · intro h
    have hlen := h.length_le
    rw [List.length_drop] at hlen
    by_cases hl : l = []
    · exact .inr hl
    · have hpos := List.length_pos_iff.mpr hl
      omega
  · rintro (rfl | rfl)
    · exact List.Sublist.refl _
    · simp

/-- PASS_ADD loses nothing when `NothingLost` says so. -/
theorem kept_iff_of_keeps
    (hmade : Answered env authoriz dbd avpair n service protocol st news)
    (hrep : ¬ Replaces dbd.avp (avpair.drop n.startAv)) :
    (news.map UserAvp.avp).Sublist ((finish avpair st).avpair.getD []) ↔
      NothingLost service protocol dbd.avp avpair n.startAv := by
  have hnone := hmade.extended.none
  rw [reviewList_bavpair_of_keeps hmade.parsed hmade.reviewed hrep] at hnone
  rw [(finish_of_keeps hmade hrep).2, sublist_drop_iff, List.map_eq_nil_iff, hnone,
    NothingLost]
  have hall : (avpair.drop n.startAv).length -
      ((avpair.drop n.startAv).filter fun a => decide (Plain a)).length = 0 ↔
        ∀ a ∈ avpair.drop n.startAv, Plain a := by
    have hle := List.length_filter_le (fun a => decide (Plain a)) (avpair.drop n.startAv)
    rw [Nat.sub_eq_zero_iff_le]
    constructor
    · intro h a ha
      exact of_decide_eq_true (List.length_filter_eq_length_iff.mp (le_antisymm hle h) a ha)
    · intro h
      exact (List.length_filter_eq_length_iff.mpr fun a ha => decide_eq_true (h a ha)).ge
  rw [hall]
  simp only [hrep, false_or]

/-- When nothing is lost, the NAS has its own AVPs and the additions. -/
theorem present_iff_of_keeps
    (hmade : Answered env authoriz dbd avpair n service protocol st news)
    (hrep : ¬ Replaces dbd.avp (avpair.drop n.startAv))
    (hkept : (news.map UserAvp.avp).Sublist ((finish avpair st).avpair.getD [])) (s : Bytes) :
    (∃ x ∈ effectiveAvps avpair (finish avpair st), matchAttr s x = true) ↔
      (∃ r ∈ dbd.avp, r.isEligible service protocol ∧ matchAttr s r.avp = true) ∨
        ∃ a ∈ avpair, matchAttr s a = true := by
  obtain ⟨hstatus, hreply⟩ := finish_of_keeps hmade hrep
  have heff : effectiveAvps avpair (finish avpair st) =
      avpair ++ (finish avpair st).avpair.getD [] := by
    rw [effectiveAvps, hstatus]
  rw [heff]
  constructor
  · rintro ⟨x, hx, hmatch⟩
    rcases List.mem_append.mp hx with hx | hx
    · exact .inr ⟨x, hx, hmatch⟩
    · rw [hreply] at hx
      obtain ⟨r, hr, rfl⟩ := List.mem_map.mp (List.mem_of_mem_drop hx)
      obtain ⟨hmem, helig⟩ := hmade.extended.eligible r hr
      exact .inl ⟨r, hmem, helig, hmatch⟩
  · rintro (⟨r, hr, helig, hmatch⟩ | ⟨a, ha, hmatch⟩)
    · obtain ⟨x, hx, hsx⟩ := (hmade.extended.match_iff s).mpr (.inl ⟨r, hr, helig, hmatch⟩)
      refine ⟨x, ?_, hsx⟩
      rw [hmade.extended.bavpair,
        reviewList_bavpair_of_keeps hmade.parsed hmade.reviewed hrep] at hx
      rcases List.mem_append.mp hx with hx | hx
      · refine List.mem_append_left _ ?_
        rcases List.mem_append.mp hx with hx | hx
        · exact List.mem_of_mem_take hx
        · exact List.mem_of_mem_drop (List.mem_of_mem_filter hx)
      · exact List.mem_append_right _ (hkept.subset hx)
    · exact ⟨a, List.mem_append_left _ ha, hmatch⟩

end

/-! ## The theorem -/

/-- **Completeness of the answer, exactly.**  For every request that names a
service and is not answered FAIL: the answer misses nothing if and only if the
rows step k passes over are supplied and the slice of PASS_ADD loses nothing. -/
theorem authorize_complete_iff (env : Env) (authoriz : Bool) (dbd : DbUser) (req : AuthorRequest)
    (n : Named) (service : Bytes) (ans : AuthorAnswer) (hn : parseService req.avpair = some n)
    (hs : n.curService = some service)
    (hans : (authorize env authoriz dbd req).answer = some ans) (hpass : ans.status ≠ .fail) :
    Complete service (n.curProtocol.getD []) dbd.avp req.avpair ans
        (authorize env authoriz dbd req).added ↔
      SkippedSupplied service (n.curProtocol.getD []) authoriz dbd.avp req.avpair n.startAv ∧
        NothingLost service (n.curProtocol.getD []) dbd.avp req.avpair n.startAv := by
  have hserv : n.curService.getD [] = service := by rw [hs, Option.getD_some]
  have hne : n.curService ≠ none := by simp [hs]
  obtain ⟨hfound, hgate⟩ := passed_of_answer hn hne hans hpass
  rw [authorize_of_gate hfound hn hne hgate] at hans ⊢
  obtain ⟨hgo, st, hext, rfl⟩ := respond_of_answer hans hpass
  rw [hserv] at hext
  have hmade := Answered.mk hn hgo hext
  -- the two kinds of answers: PASS_REPL sends the list, PASS_ADD a slice of it
  by_cases hrep : Replaces dbd.avp (req.avpair.drop n.startAv)
  · rw [complete_iff_of_replaces hmade hrep]
    exact (and_iff_left (.inl hrep)).symm
  · have hkept := kept_iff_of_keeps hmade hrep
    have hskip : SkippedSupplied service (n.curProtocol.getD []) authoriz dbd.avp req.avpair
        n.startAv ↔ ∀ r ∈ dbd.avp, r.isOwn service (n.curProtocol.getD []) = true →
          mandatory r.avp = true → optional r.avp = true →
          (∃ r' ∈ dbd.avp, r'.isEligible service (n.curProtocol.getD []) ∧
            matchAttr r.avp r'.avp = true) ∨ ∃ a ∈ req.avpair, matchAttr r.avp a = true := by
      simp only [SkippedSupplied, hrep, false_imp_iff, true_and]
    rw [hskip]
    constructor
    · intro h
      refine ⟨(forall_own_iff fun s => ∃ a ∈ req.avpair, matchAttr s a = true).mp
        fun r hr hown hnil hman => ?_, hkept.mp h.kept⟩
      exact (present_iff_of_keeps hmade hrep h.kept r.avp).mp
        (h.present r hr hown hnil hman)
    · rintro ⟨hsupplied, hlost⟩
      have hsub := hkept.mpr hlost
      refine ⟨fun r hr hown hnil hman => ?_, hsub⟩
      exact (present_iff_of_keeps hmade hrep hsub r.avp).mpr
        ((forall_own_iff fun s => ∃ a ∈ req.avpair, matchAttr s a = true).mpr hsupplied r hr hown
          hnil hman)

/-- A shell request without a command gets the privilege level of the record. -/
theorem authorize_complete_shell :
    let dbd := openUser [⟨str "shell", [], str "priv-lvl=15"⟩] [] []
    let req : AuthorRequest := ⟨6, 1, 1, 1, str "joe", [], [], [str "service=shell"], by decide⟩
    Complete (str "shell") [] dbd.avp req.avpair ⟨.passAdd, some [str "priv-lvl=15"]⟩
      (authorize (searchEnv dbd) true dbd req).added := by
  intro dbd req
  refine (authorize_complete_iff (searchEnv dbd) true dbd req
    ⟨some (str "shell"), none, 1, [str "service=shell"]⟩ (str "shell")
    ⟨.passAdd, some [str "priv-lvl=15"]⟩ rfl rfl (by decide) (by decide)).mpr
      ⟨?_, .inr (.inl ?_)⟩
  · intro r hr _ _ hopt
    obtain rfl := List.mem_singleton.mp hr
    exact absurd hopt (by decide)
  · intro a ha
    simp [req] at ha

/-- With a command in the request the privilege level is added and lost. -/
theorem authorize_loses_addition :
    let dbd := openUser [⟨str "shell", [], str "priv-lvl=15"⟩] [⟨str "show", [], [], []⟩] []
    let req : AuthorRequest := ⟨6, 1, 1, 1, str "joe", [], [],
      [str "service=shell", str "cmd=show"], by decide⟩
    (authorize (searchEnv dbd) true dbd req).answer = some ⟨.passAdd, some []⟩ ∧
      ¬ Complete (str "shell") [] dbd.avp req.avpair ⟨.passAdd, some []⟩
        (authorize (searchEnv dbd) true dbd req).added := by
  intro dbd req
  refine ⟨by decide, fun h => ?_⟩
  obtain ⟨x, hx, hmatch⟩ := h.present ⟨str "shell", [], str "priv-lvl=15"⟩
    (List.mem_singleton.mpr rfl) (by decide) (by decide) (by decide)
  rcases List.mem_cons.mp hx with rfl | hx
  · exact absurd hmatch (by decide)
  · obtain rfl : x = str "cmd=show" := List.mem_singleton.mp hx
    exact absurd hmatch (by decide)

end Tacppd
