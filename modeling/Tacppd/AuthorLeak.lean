/-
# Rows of other services

A row of a user belongs to one service and protocol.  Step k filters by both, the
loops of steps a to h do not, so an AVP of the request can be accepted by, or
replaced with, a row of another service.

`authorize_leakFree_iff` says on which records this shows; where it does not, the
answer is the one of the rows of the service alone (`respond_ownRows`), and so two
records with the same rows for the service give the same reply.
-/
import Tacppd.AuthorGate

namespace Tacppd

/-! ## The row an AVP is served by -/

/-- The first row of a list with a property. -/
def IsFirst (p : UserAvp → Prop) (rows : List UserAvp) (r : UserAvp) : Prop :=
  p r ∧ ∃ pre post, rows = pre ++ r :: post ∧ ∀ x ∈ pre, ¬ p x

theorem find?_eq_some_iff_isFirst (p : UserAvp → Bool) (rows : List UserAvp) (r : UserAvp) :
    rows.find? p = some r ↔ IsFirst (fun r => p r = true) rows r := by
  rw [List.find?_eq_some_iff_append, IsFirst]
  simp only [Bool.not_eq_true']
  refine and_congr_right fun _ => ?_
  simp only [Bool.not_eq_true]

/-- A row accepts a mandatory AVP of the request, steps a and b. -/
def AcceptsMandatory (nasAvp : Bytes) (r : UserAvp) : Prop :=
  r.avp = nasAvp ∨ (matchAttr r.avp nasAvp = true ∧ optional r.avp = true)

/-- A mandatory row with the attribute of the AVP, step f. -/
def ReplacesMandatory (nasAvp : Bytes) (r : UserAvp) : Prop :=
  mandatory r.avp = true ∧ matchAttr nasAvp r.avp = true

/-- Another row with the attribute and the value of the AVP, step g. -/
def ReplacesValue (nasAvp : Bytes) (r : UserAvp) : Prop :=
  mandatory r.avp = false ∧ matchAttr nasAvp r.avp = true ∧ matchValue nasAvp r.avp = true

/-- Another row with the attribute of the AVP, step h. -/
def ReplacesOptional (nasAvp : Bytes) (r : UserAvp) : Prop :=
  mandatory r.avp = false ∧ matchAttr nasAvp r.avp = true

/-- The row that serves an AVP of the request: the first row of the first step that
finds one. -/
inductive ServedBy (rows : List UserAvp) (nasAvp : Bytes) (r : UserAvp) : Prop
  | ab : mandatory nasAvp = true → IsFirst (AcceptsMandatory nasAvp) rows r →
      ServedBy rows nasAvp r
  | e : mandatory nasAvp = false → IsFirst (·.avp = nasAvp) rows r → ServedBy rows nasAvp r
  | f : mandatory nasAvp = false → (∀ x ∈ rows, x.avp ≠ nasAvp) →
      IsFirst (ReplacesMandatory nasAvp) rows r → ServedBy rows nasAvp r
  | g : mandatory nasAvp = false → (∀ x ∈ rows, x.avp ≠ nasAvp) →
      (∀ x ∈ rows, ¬ ReplacesMandatory nasAvp x) → IsFirst (ReplacesValue nasAvp) rows r →
      ServedBy rows nasAvp r
  | h : mandatory nasAvp = false → (∀ x ∈ rows, x.avp ≠ nasAvp) →
      (∀ x ∈ rows, ¬ ReplacesMandatory nasAvp x) → (∀ x ∈ rows, ¬ ReplacesValue nasAvp x) →
      IsFirst (ReplacesOptional nasAvp) rows r → ServedBy rows nasAvp r

section

variable (rows : List UserAvp) (nasAvp : Bytes)

theorem stepAB_eq_some_iff (r : UserAvp) :
    stepAB rows nasAvp = some r ↔ IsFirst (AcceptsMandatory nasAvp) rows r := by
  rw [stepAB, find?_eq_some_iff_isFirst]
  simp only [Bool.or_eq_true, scomp_iff, Bool.and_eq_true]
  rfl

theorem stepE_eq_some_iff (r : UserAvp) :
    stepE rows nasAvp = some r ↔ IsFirst (·.avp = nasAvp) rows r := by
  rw [stepE, find?_eq_some_iff_isFirst]
  simp only [scomp_iff, eq_comm (a := nasAvp)]

theorem stepE_eq_none_iff : stepE rows nasAvp = none ↔ ∀ x ∈ rows, x.avp ≠ nasAvp := by
  rw [stepE, List.find?_eq_none]
  simp only [scomp_iff, ne_eq, eq_comm (a := nasAvp)]

theorem stepF_eq_some_iff (r : UserAvp) :
    stepF rows nasAvp = some r ↔ IsFirst (ReplacesMandatory nasAvp) rows r := by
  rw [stepF, find?_eq_some_iff_isFirst]
  simp only [Bool.and_eq_true]
  rfl

theorem stepF_eq_none_iff :
    stepF rows nasAvp = none ↔ ∀ x ∈ rows, ¬ ReplacesMandatory nasAvp x := by
  rw [stepF, List.find?_eq_none]
  simp only [Bool.and_eq_true]
  rfl

theorem stepG_eq_some_iff (r : UserAvp) :
    stepG rows nasAvp = some r ↔ IsFirst (ReplacesValue nasAvp) rows r := by
  rw [stepG, find?_eq_some_iff_isFirst]
  simp only [Bool.and_eq_true, Bool.not_eq_true']
  rfl

theorem stepG_eq_none_iff : stepG rows nasAvp = none ↔ ∀ x ∈ rows, ¬ ReplacesValue nasAvp x := by
  rw [stepG, List.find?_eq_none]
  simp only [Bool.and_eq_true, Bool.not_eq_true']
  rfl

theorem stepH_eq_some_iff (r : UserAvp) :
    stepH rows nasAvp = some r ↔ IsFirst (ReplacesOptional nasAvp) rows r := by
  rw [stepH, find?_eq_some_iff_isFirst]
  simp only [Bool.and_eq_true, Bool.not_eq_true']
  rfl

/-- The row the review of a mandatory AVP logs. -/
theorem reviewMandatory_row_iff (authoriz : Bool) (r : UserAvp) :
    (∃ s, reviewMandatory rows nasAvp authoriz = some s ∧ s.row = some r) ↔
      stepAB rows nasAvp = some r := by
  unfold reviewMandatory
  cases hab : stepAB rows nasAvp <;> cases authoriz <;> simp

/-- The row the review of an optional AVP logs. -/
theorem reviewOptional_row (authoriz : Bool) :
    (reviewOptional rows nasAvp authoriz).row = (stepE rows nasAvp).or
      ((stepF rows nasAvp).or ((stepG rows nasAvp).or (stepH rows nasAvp))) := by
  unfold reviewOptional
  -- each step is looked at only where those before it found nothing
  cases stepE rows nasAvp <;> simp
  cases stepF rows nasAvp <;> simp
  cases stepG rows nasAvp <;> simp
  cases stepH rows nasAvp <;> cases authoriz <;> simp

end

/-- The AVP is reviewed against the AVP rows: it is not empty, no command and no
command argument. -/
def Plain (nasAvp : Bytes) : Prop :=
  nasAvp ≠ [] ∧ matchAttr nasAvp (str "cmd=") = false ∧ matchAttr nasAvp (str "cmd-arg=") = false

theorem reviewAvp_of_plain (env : Env) (authoriz : Bool) (dbd : DbUser) {nasAvp : Bytes}
    (h : Plain nasAvp) :
    reviewAvp env authoriz dbd nasAvp =
      if mandatory nasAvp then reviewMandatory dbd.avp nasAvp authoriz
      else some (reviewOptional dbd.avp nasAvp authoriz) := by
  simp [reviewAvp, h.2.1, h.2.2]

/-- Commands, command arguments and empty AVPs leave no trace. -/
theorem effect_of_not_plain (env : Env) (authoriz : Bool) (dbd : DbUser) {nasAvp : Bytes}
    (h : ¬ Plain nasAvp) : effect env authoriz dbd nasAvp = .skip := by
  unfold effect
  by_cases hnil : nasAvp = []
  · rw [if_pos hnil]
  rw [if_neg hnil, reviewAvp]
  cases hcmd : matchAttr nasAvp (str "cmd=")
  · cases harg : matchAttr nasAvp (str "cmd-arg=")
    · exact absurd ⟨hnil, hcmd, harg⟩ h
    · simp only [Bool.false_eq_true, if_false, if_true]
      split
      · rfl
      · split <;> rfl
  · simp only [if_true]
    split <;> rfl

/-- **The rows of the review.**  A row is logged for an AVP exactly when it serves
it. -/
theorem effect_row_iff (env : Env) (authoriz : Bool) (dbd : DbUser) (nasAvp : Bytes)
    (r : UserAvp) :
    (effect env authoriz dbd nasAvp).row = some r ↔ Plain nasAvp ∧ ServedBy dbd.avp nasAvp r := by
  by_cases hplain : Plain nasAvp
  · simp only [hplain, true_and]
    rw [effect, if_neg hplain.1, reviewAvp_of_plain env authoriz dbd hplain]
    cases hman : mandatory nasAvp
    · rw [if_neg Bool.false_ne_true, Option.getD_some, reviewOptional_row]
      simp only [Option.or_eq_some_iff, stepE_eq_some_iff, stepE_eq_none_iff, stepF_eq_some_iff,
        stepF_eq_none_iff, stepG_eq_some_iff, stepG_eq_none_iff, stepH_eq_some_iff]
      constructor
      · rintro (he | ⟨hne, hf | ⟨hnf, hg | ⟨hng, hh⟩⟩⟩)
        · exact .e hman he
        · exact .f hman hne hf
        · exact .g hman hne hnf hg
        · exact .h hman hne hnf hng hh
      · rintro (⟨hm, -⟩ | ⟨-, he⟩ | ⟨-, hne, hf⟩ | ⟨-, hne, hnf, hg⟩ | ⟨-, hne, hnf, hng, hh⟩)
        · rw [hman] at hm
          contradiction
        · exact .inl he
        · exact .inr ⟨hne, .inl hf⟩
        · exact .inr ⟨hne, .inr ⟨hnf, .inl hg⟩⟩
        · exact .inr ⟨hne, .inr ⟨hnf, .inr ⟨hng, hh⟩⟩⟩
    · rw [if_pos rfl]
      have hrow : ((reviewMandatory dbd.avp nasAvp authoriz).getD .skip).row = some r ↔
          stepAB dbd.avp nasAvp = some r := by
        rw [← reviewMandatory_row_iff dbd.avp nasAvp authoriz]
        cases reviewMandatory dbd.avp nasAvp authoriz <;> simp [Step.skip]
      rw [hrow, stepAB_eq_some_iff]
      constructor
      · exact .ab hman
      · rintro (⟨-, hab⟩ | ⟨hm, -⟩ | ⟨hm, -, -⟩ | ⟨hm, -, -, -⟩ | ⟨hm, -, -, -, -⟩)
        · exact hab
        all_goals simp_all
  · simp [effect_of_not_plain env authoriz dbd hplain, hplain, Step.skip]

/-! ## The condition -/

/-- Every row that serves an AVP of the request, up to the first one that is
denied, is one of the requested service and protocol. -/
def ServesOwn (curService curProtocol : Bytes) (env : Env) (authoriz : Bool) (dbd : DbUser)
    (avps : List Bytes) : Prop :=
  ∀ pre a post, avps = pre ++ a :: post → (∀ b ∈ pre, ¬ Denied env authoriz dbd b) → Plain a →
    ∀ r, ServedBy dbd.avp a r → r.isOwn curService curProtocol = true

/-- The database rows of an answer are those of the requested service and protocol. -/
structure LeakFree (curService curProtocol : Bytes) (res : Authorized) : Prop where
  used : ∀ r ∈ res.used, r.isOwn curService curProtocol = true
  added : ∀ r ∈ res.added, r.isOwn curService curProtocol = true

theorem goesOn_iff_not_denied (env : Env) (authoriz : Bool) (dbd : DbUser) (a : Bytes) :
    goesOn env authoriz dbd a = true ↔ ¬ Denied env authoriz dbd a := by
  rw [← goesOn_eq_false_iff, Bool.not_eq_false]

/-- A served AVP is not denied. -/
theorem not_denied_of_servedBy {env : Env} {authoriz : Bool} {dbd : DbUser} {a : Bytes}
    {r : UserAvp} (hplain : Plain a) (h : ServedBy dbd.avp a r) : ¬ Denied env authoriz dbd a := by
  have hrow := (effect_row_iff env authoriz dbd a r).mpr ⟨hplain, h⟩
  rw [← goesOn_iff_not_denied]
  by_contra hstop
  have hnone : reviewAvp env authoriz dbd a = none := by
    simpa [goesOn, hplain.1] using hstop
  simp [effect, hplain.1, hnone, Step.skip] at hrow

theorem mem_reviewed_iff (env : Env) (authoriz : Bool) (dbd : DbUser) (avps : List Bytes)
    (a : Bytes) :
    a ∈ reviewed env authoriz dbd avps ↔ ∃ pre post, avps = pre ++ a :: post ∧
      (∀ b ∈ pre, ¬ Denied env authoriz dbd b) ∧ ¬ Denied env authoriz dbd a := by
  unfold reviewed
  induction avps with
  | nil => simp
  | cons x rest ih =>
    rw [List.takeWhile_cons]
    cases hgo : goesOn env authoriz dbd x
    · -- the loop ends at `x`, and nothing after it is reviewed
      refine iff_of_false (by simp) ?_
      rintro ⟨pre, post, heq, hpre, ha⟩
      have hden := (goesOn_eq_false_iff env authoriz dbd x).mp hgo
      cases pre with
      | nil =>
        obtain ⟨rfl, -⟩ := List.cons.inj heq
        exact ha hden
      | cons y pre =>
        obtain ⟨rfl, -⟩ := List.cons.inj heq
        exact hpre x (.head _) hden
    · rw [if_pos rfl, List.mem_cons, ih]
      have hx := (goesOn_iff_not_denied env authoriz dbd x).mp hgo
      constructor
      · rintro (rfl | ⟨pre, post, rfl, hpre, ha⟩)
        · exact ⟨[], rest, rfl, by simp, hx⟩
        · exact ⟨x :: pre, post, rfl, List.forall_mem_cons.mpr ⟨hx, hpre⟩, ha⟩
      · rintro ⟨pre, post, heq, hpre, ha⟩
        cases pre with
        | nil =>
          obtain ⟨rfl, -⟩ := List.cons.inj heq
          exact .inl rfl
        | cons y pre =>
          obtain ⟨rfl, rfl⟩ := List.cons.inj heq
          exact .inr ⟨pre, post, rfl, (List.forall_mem_cons.mp hpre).2, ha⟩

/-- The rows a review has logged are the ones that serve the AVPs it went through. -/
theorem used_reviewed_iff (curService curProtocol : Bytes) (env : Env) (authoriz : Bool)
    (dbd : DbUser) (bavpair avps : List Bytes) :
    (∀ r ∈ (Review.addEffects env authoriz dbd ⟨bavpair, 0, [], []⟩
        (reviewed env authoriz dbd avps)).used, r.isOwn curService curProtocol = true) ↔
      ServesOwn curService curProtocol env authoriz dbd avps := by
  rw [addEffects_used]
  simp only [List.nil_append, List.mem_flatMap, Option.mem_toList, forall_exists_index, and_imp]
  constructor
  · intro h pre a post heq hpre hplain r hserved
    refine h r a ?_ ((effect_row_iff env authoriz dbd a r).mpr ⟨hplain, hserved⟩)
    exact (mem_reviewed_iff env authoriz dbd avps a).mpr
      ⟨pre, post, heq, hpre, not_denied_of_servedBy hplain hserved⟩
  · intro h r a ha hrow
    obtain ⟨pre, post, heq, hpre, -⟩ := (mem_reviewed_iff env authoriz dbd avps a).mp ha
    obtain ⟨hplain, hserved⟩ := (effect_row_iff env authoriz dbd a r).mp hrow
    exact h pre a post heq hpre hplain r hserved

theorem reviewed_eq_self {env : Env} {authoriz : Bool} {dbd : DbUser} {avps : List Bytes}
    (h : ∀ a ∈ avps, goesOn env authoriz dbd a = true) :
    reviewed env authoriz dbd avps = avps := List.takeWhile_eq_self_iff.mpr h

/-- The rows of an answer after the gate. -/
theorem respond_leakFree_iff (env : Env) (authoriz : Bool) (dbd : DbUser) (avpair : List Bytes)
    (n : Named) :
    LeakFree (n.curService.getD []) (n.curProtocol.getD []) (respond env authoriz dbd avpair n) ↔
      ServesOwn (n.curService.getD []) (n.curProtocol.getD []) env authoriz dbd
        (avpair.drop n.startAv) := by
  rw [← used_reviewed_iff _ _ env authoriz dbd n.bavpair]
  unfold respond
  rw [reviewLoop_eq]
  by_cases hall : ∀ a ∈ avpair.drop n.startAv, goesOn env authoriz dbd a = true
  · rw [if_pos hall, reviewed_eq_self hall]
    simp only
    cases hadd : addLoop (n.curService.getD []) (n.curProtocol.getD [])
      (Review.addEffects env authoriz dbd ⟨n.bavpair, 0, [], []⟩ (avpair.drop n.startAv))
      dbd.avp with
    | none => exact ⟨fun h => h.used, fun h => ⟨h, by simp⟩⟩
    | some st =>
      obtain ⟨news, hext⟩ := addLoop_spec hadd
      simp only
      constructor
      · intro h
        rw [← hext.used]
        exact h.used
      · intro h
        refine ⟨?_, fun r hr => ?_⟩
        · rw [hext.used]
          exact h
        · rw [hext.added, addEffects_added, List.nil_append] at hr
          exact (hext.eligible r hr).2.1
  · rw [if_neg hall]
    exact ⟨fun h => h.used, fun h => ⟨h, by simp⟩⟩

/-! ## The rows of the service decide -/

/-- The record with the rows of one service and protocol only. -/
def DbUser.ownRows (dbd : DbUser) (curService curProtocol : Bytes) : DbUser :=
  { dbd with avp := dbd.avp.filter (·.isOwn curService curProtocol) }

/-- A search that finds an own row, or none, finds the same among the own rows. -/
theorem find?_filter_own {own p : UserAvp → Bool} {rows : List UserAvp}
    (h : ∀ r, rows.find? p = some r → own r = true) :
    (rows.filter own).find? p = rows.find? p := by
  induction rows with
  | nil => rfl
  | cons x rest ih =>
    cases hp : p x
    · rw [List.find?_cons_of_neg (by simp [hp])] at h ⊢
      rw [List.filter_cons]
      split
      · rw [List.find?_cons_of_neg (by simp [hp]), ih h]
      · exact ih h
    · rw [List.find?_cons_of_pos hp] at h ⊢
      rw [List.filter_cons_of_pos (h x rfl), List.find?_cons_of_pos hp]

theorem reviewMandatory_filter {own : UserAvp → Bool} {rows : List UserAvp} {nasAvp : Bytes}
    (authoriz : Bool) (h : ∀ r, stepAB rows nasAvp = some r → own r = true) :
    reviewMandatory (rows.filter own) nasAvp authoriz = reviewMandatory rows nasAvp authoriz := by
  have hab : stepAB (rows.filter own) nasAvp = stepAB rows nasAvp := find?_filter_own h
  unfold reviewMandatory
  rw [hab]

theorem reviewOptional_filter {own : UserAvp → Bool} {rows : List UserAvp} {nasAvp : Bytes}
    (authoriz : Bool)
    (h : ∀ r, (reviewOptional rows nasAvp authoriz).row = some r → own r = true) :
    reviewOptional (rows.filter own) nasAvp authoriz = reviewOptional rows nasAvp authoriz := by
  rw [reviewOptional_row] at h
  unfold reviewOptional
  -- each step is asked only after the ones before it have found nothing
  have he : stepE (rows.filter own) nasAvp = stepE rows nasAvp :=
    find?_filter_own fun r hr => h r (by simp [stepE, hr])
  rw [he]
  cases hse : stepE rows nasAvp with
  | some r => rfl
  | none =>
    rw [hse, Option.none_or] at h
    have hf : stepF (rows.filter own) nasAvp = stepF rows nasAvp :=
      find?_filter_own fun r hr => h r (by simp [stepF, hr])
    simp only [hf]
    cases hsf : stepF rows nasAvp with
    | some r => rfl
    | none =>
      rw [hsf, Option.none_or] at h
      have hg : stepG (rows.filter own) nasAvp = stepG rows nasAvp :=
        find?_filter_own fun r hr => h r (by simp [stepG, hr])
      simp only [hg]
      cases hsg : stepG rows nasAvp with
      | some r => rfl
      | none =>
        rw [hsg, Option.none_or] at h
        have hh : stepH (rows.filter own) nasAvp = stepH rows nasAvp := find?_filter_own h
        simp only [hh]

/-- One AVP that only own rows serve is reviewed as if there were no others. -/
theorem reviewAvp_ownRows {curService curProtocol : Bytes} (env : Env) (authoriz : Bool)
    (dbd : DbUser) {a : Bytes} (hnil : a ≠ [])
    (h : Plain a → ∀ r, ServedBy dbd.avp a r → r.isOwn curService curProtocol = true) :
    reviewAvp env authoriz (dbd.ownRows curService curProtocol) a =
      reviewAvp env authoriz dbd a := by
  by_cases hplain : Plain a
  · have hrow : ∀ r, (effect env authoriz dbd a).row = some r →
        r.isOwn curService curProtocol = true :=
      fun r hr => h hplain r ((effect_row_iff env authoriz dbd a r).mp hr).2
    rw [effect, if_neg hnil, reviewAvp_of_plain env authoriz dbd hplain] at hrow
    rw [reviewAvp_of_plain env authoriz _ hplain, reviewAvp_of_plain env authoriz dbd hplain]
    cases hman : mandatory a
    · rw [hman, if_neg Bool.false_ne_true, Option.getD_some] at hrow
      rw [if_neg Bool.false_ne_true, if_neg Bool.false_ne_true]
      exact congrArg some (reviewOptional_filter authoriz hrow)
    · rw [hman, if_pos rfl] at hrow
      rw [if_pos rfl, if_pos rfl]
      refine reviewMandatory_filter authoriz fun r hr => hrow r ?_
      simp [reviewMandatory, hr]
  · -- a command or a command argument does not look at the AVP rows
    have hcmd : matchAttr a (str "cmd=") = true ∨ matchAttr a (str "cmd-arg=") = true := by
      by_contra hcon
      rw [not_or, Bool.not_eq_true, Bool.not_eq_true] at hcon
      exact hplain ⟨hnil, hcon⟩
    unfold reviewAvp
    rcases hcmd with hcmd | harg
    · simp only [hcmd, if_true]
      rfl
    · simp only [harg, if_true]
      rfl

theorem ServesOwn.tail {curService curProtocol : Bytes} {env : Env} {authoriz : Bool}
    {dbd : DbUser} {a : Bytes} {rest : List Bytes}
    (h : ServesOwn curService curProtocol env authoriz dbd (a :: rest))
    (ha : ¬ Denied env authoriz dbd a) :
    ServesOwn curService curProtocol env authoriz dbd rest := by
  intro pre b post heq hpre
  exact h (a :: pre) b post (by rw [heq]; rfl) (List.forall_mem_cons.mpr ⟨ha, hpre⟩)

/-- A review that own rows serve is the review of the own rows. -/
theorem reviewLoop_ownRows {curService curProtocol : Bytes} {env : Env} {authoriz : Bool}
    {dbd : DbUser} {avps : List Bytes} (st : Review)
    (h : ServesOwn curService curProtocol env authoriz dbd avps) :
    reviewLoop env authoriz (dbd.ownRows curService curProtocol) st avps =
      reviewLoop env authoriz dbd st avps := by
  induction avps generalizing st with
  | nil => rfl
  | cons a rest ih =>
    rw [reviewLoop, reviewLoop]
    by_cases hnil : a = []
    · have hgo : goesOn env authoriz dbd a = true := by simp [goesOn, hnil]
      rw [if_pos hnil, if_pos hnil]
      exact ih st (h.tail ((goesOn_iff_not_denied env authoriz dbd a).mp hgo))
    · rw [if_neg hnil, if_neg hnil,
        reviewAvp_ownRows env authoriz dbd hnil (h [] a rest rfl (by simp))]
      cases hrev : reviewAvp env authoriz dbd a with
      | none => rfl
      | some s =>
        have hgo : goesOn env authoriz dbd a = true := by simp [goesOn, hrev]
        exact ih _ (h.tail ((goesOn_iff_not_denied env authoriz dbd a).mp hgo))

/-- After the gate, a request that own rows serve is answered from the own rows. -/
theorem respond_ownRows {env : Env} {authoriz : Bool} {dbd : DbUser} {avpair : List Bytes}
    {n : Named} (h : ServesOwn (n.curService.getD []) (n.curProtocol.getD []) env authoriz dbd
      (avpair.drop n.startAv)) :
    respond env authoriz (dbd.ownRows (n.curService.getD []) (n.curProtocol.getD [])) avpair n =
      respond env authoriz dbd avpair n := by
  unfold respond
  rw [reviewLoop_ownRows _ h]
  cases reviewLoop env authoriz dbd ⟨n.bavpair, 0, [], []⟩ (avpair.drop n.startAv) with
  | error st => rfl
  | ok st =>
    simp only [DbUser.ownRows, addLoop_filter]

/-- After the gate nothing of a record is read but the command rows and the AVP
rows. -/
theorem respond_congr {env : Env} {authoriz : Bool} {dbd dbd' : DbUser} {avpair : List Bytes}
    {n : Named} (hcmd : dbd.cmd = dbd'.cmd) (havp : dbd.avp = dbd'.avp) :
    respond env authoriz dbd avpair n = respond env authoriz dbd' avpair n := by
  have hrev : reviewAvp env authoriz dbd = reviewAvp env authoriz dbd' := by
    funext a
    unfold reviewAvp
    rw [hcmd, havp]
  have hloop : reviewLoop env authoriz dbd = reviewLoop env authoriz dbd' := by
    funext st avps
    induction avps generalizing st with
    | nil => rfl
    | cons a rest ih => simp only [reviewLoop, hrev, ih]
  unfold respond
  rw [hloop, havp]

/-! ## The theorem -/

/-- **No cross-service leak, exactly.**  For every request that names a service:
all rows of the answer are of the requested service and protocol if and only if,
once the gate is passed, only such rows serve the AVPs of the request.  And two
records with the same command rows and the same rows for the service, both past the
gate and both with this property, give the same reply. -/
theorem authorize_leakFree_iff (env : Env) (authoriz : Bool) (dbd : DbUser) (req : AuthorRequest)
    (n : Named) (service : Bytes) (hn : parseService req.avpair = some n)
    (hs : n.curService = some service) :
    (LeakFree service (n.curProtocol.getD []) (authorize env authoriz dbd req) ↔
      (dbd.result = true → gate service (n.curProtocol.getD []) dbd.avp = true →
        ServesOwn service (n.curProtocol.getD []) env authoriz dbd
          (req.avpair.drop n.startAv))) ∧
    ∀ dbd' : DbUser, dbd'.result = true → dbd.result = true → dbd'.cmd = dbd.cmd →
      dbd'.avp.filter (·.isOwn service (n.curProtocol.getD [])) =
        dbd.avp.filter (·.isOwn service (n.curProtocol.getD [])) →
      gate service (n.curProtocol.getD []) dbd'.avp = true →
      gate service (n.curProtocol.getD []) dbd.avp = true →
      ServesOwn service (n.curProtocol.getD []) env authoriz dbd' (req.avpair.drop n.startAv) →
      ServesOwn service (n.curProtocol.getD []) env authoriz dbd (req.avpair.drop n.startAv) →
      (authorize env authoriz dbd' req).answer = (authorize env authoriz dbd req).answer := by
  have hserv : n.curService.getD [] = service := by rw [hs, Option.getD_some]
  have hne : n.curService ≠ none := by simp [hs]
  constructor
  · by_cases hfound : dbd.result = true
    · by_cases hgate : gate service (n.curProtocol.getD []) dbd.avp = true
      · have h := respond_leakFree_iff env authoriz dbd req.avpair n
        rw [hserv] at h
        rw [authorize_of_gate hfound hn hne (hserv ▸ hgate), h]
        exact ⟨fun hown _ _ => hown, fun hown => hown hfound hgate⟩
      · rw [authorize_of_shut hn hne (hserv ▸ hgate)]
        exact iff_of_true ⟨by simp [refused], by simp [refused]⟩ fun _ h => absurd h hgate
    · rw [authorize_of_not_found hfound]
      exact iff_of_true ⟨by simp [refused], by simp [refused]⟩ fun h => absurd h hfound
  · intro dbd' hfound' hfound hcmd hrows hgate' hgate hown' hown
    have hleft : respond env authoriz (dbd'.ownRows service (n.curProtocol.getD [])) req.avpair n =
        respond env authoriz dbd' req.avpair n := hserv ▸ respond_ownRows (hserv ▸ hown')
    have hright : respond env authoriz (dbd.ownRows service (n.curProtocol.getD [])) req.avpair n =
        respond env authoriz dbd req.avpair n := hserv ▸ respond_ownRows (hserv ▸ hown)
    rw [authorize_of_gate hfound' hn hne (hserv ▸ hgate'),
      authorize_of_gate hfound hn hne (hserv ▸ hgate), ← hleft, ← hright]
    exact congrArg Authorized.answer (respond_congr hcmd hrows)

/-- A shell request for a privilege level, which a row of its service has: the answer takes
nothing from the row of another service. -/
theorem authorize_leakFree_shell :
    let shell : UserAvp := ⟨str "shell", [], str "priv-lvl=15"⟩
    let ppp : UserAvp := ⟨str "ppp", str "ip", str "addr=10.0.0.1"⟩
    let req : AuthorRequest := ⟨6, 1, 1, 1, str "joe", [], [],
      [str "service=shell", str "priv-lvl=15"], by decide⟩
    let dbd := openUser [shell, ppp] [] []
    LeakFree (str "shell") [] (authorize (searchEnv dbd) true dbd req) ∧
      (authorize (searchEnv dbd) true dbd req).used = [shell] := by
  intro shell ppp req dbd
  refine ⟨(authorize_leakFree_iff (searchEnv dbd) true dbd req
    ⟨some (str "shell"), none, 1, [str "service=shell"]⟩ (str "shell") rfl rfl).1.mpr ?_,
    by decide +kernel⟩
  rintro - - pre a post heq - hplain r hserved
  obtain ⟨rfl, rfl, rfl⟩ : pre = [] ∧ a = str "priv-lvl=15" ∧ post = [] := by
    rcases pre with _ | ⟨b, pre⟩
    · simpa [req, eq_comm] using heq
    · have hlen := congrArg List.length heq
      simp [req] at hlen
  have hrow := (effect_row_iff (searchEnv dbd) true dbd _ r).mpr ⟨hplain, hserved⟩
  have hshell : (effect (searchEnv dbd) true dbd (str "priv-lvl=15")).row = some shell := by
    decide +kernel
  obtain rfl := Option.some.inj (hshell.symm.trans hrow)
  decide +kernel

/-- Where the default is deny, a row of `ppp` lets the privilege level of a shell
request through, and without that row the same request is refused. -/
theorem authorize_foreign_row :
    let shell : UserAvp := ⟨str "shell", [], []⟩
    let ppp : UserAvp := ⟨str "ppp", str "ip", str "priv-lvl=15"⟩
    let req : AuthorRequest := ⟨6, 1, 1, 1, str "joe", [], [],
      [str "service=shell", str "priv-lvl=15"], by decide⟩
    let dbd := openUser [shell, ppp] [] []
    let dbd' := openUser [shell] [] []
    gate (str "shell") [] dbd.avp = true ∧ gate (str "shell") [] dbd'.avp = true ∧
      dbd'.avp.filter (·.isOwn (str "shell") []) = dbd.avp.filter (·.isOwn (str "shell") []) ∧
      ¬ LeakFree (str "shell") [] (authorize (searchEnv dbd) false dbd req) ∧
      (authorize (searchEnv dbd) false dbd req).answer = some ⟨.passAdd, none⟩ ∧
      (authorize (searchEnv dbd) false dbd' req).answer = some failAnswer := by
  intro shell ppp req dbd dbd'
  refine ⟨by decide, by decide, by decide, fun h => ?_, by decide, by decide⟩
  exact absurd (h.used ppp (by decide)) (by decide)

end Tacppd
