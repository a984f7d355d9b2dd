/-
# The loops of an authorization

What the loops of `process` compute, each said once: the service/protocol gate
(`gate_iff`), the loop over the command rows (`permitted_iff`), the review of the
request (`reviewLoop_eq`) and step k (`addLoop_spec`).
-/
import Tacppd.Author

namespace Tacppd

/-! ## The gate -/

theorem gateLoop_serv (curService curProtocol : Bytes) (flagServ flagProto : Bool)
    (rows : List UserAvp) :
    (gateLoop curService curProtocol flagServ flagProto rows).1 =
      (flagServ || rows.any (·.compareService curService)) := by
  induction rows generalizing flagServ flagProto with
  | nil => simp [gateLoop]
  | cons avp rest ih =>
    rw [gateLoop]
    -- where the loop breaks both flags are up, and no later row could change that
    cases hs : avp.compareService curService
    · cases flagServ <;> cases flagProto <;> simp [hs, ih]
    · cases hp : avp.compareProtocol curProtocol <;> cases flagProto <;> simp [hs, ih]

theorem gateLoop_proto (curService curProtocol : Bytes) (flagServ flagProto : Bool)
    (rows : List UserAvp)
    (h : (gateLoop curService curProtocol flagServ flagProto rows).2 = true) :
    flagProto = true ∨ ∃ r ∈ rows, r.compareService curService = true := by
  induction rows generalizing flagServ flagProto with
  | nil => exact .inl h
  | cons avp rest ih =>
    cases hs : avp.compareService curService
    · -- a row of another service leaves the flags as they are
      rw [gateLoop] at h
      simp only [hs, Bool.false_eq_true, if_false] at h
      cases hflags : flagServ && flagProto
      · rw [hflags] at h
        simp only [Bool.false_eq_true, if_false] at h
        exact (ih _ _ h).imp_right fun ⟨r, hr, hserv⟩ => ⟨r, .tail _ hr, hserv⟩
      · exact .inl (Bool.and_eq_true_iff.mp hflags).2
    · exact .inr ⟨avp, .head _, hs⟩

/-- **The gate** asks for some row of the service; the protocol does not count. -/
theorem gate_iff (curService curProtocol : Bytes) (rows : List UserAvp) :
    gate curService curProtocol rows = true ↔ ∃ r ∈ rows, r.compareService curService = true := by
  have hserv := gateLoop_serv curService curProtocol false false rows
  rw [Bool.false_or] at hserv
  unfold gate
  simp only [Bool.not_and, Bool.not_not, Bool.or_eq_true]
  rw [hserv, List.any_eq_true]
  constructor
  · -- `flag_proto` alone is never up
    rintro (h | h)
    · exact h
    · exact (gateLoop_proto _ _ _ _ _ h).resolve_left Bool.false_ne_true
  · exact .inl

/-! ## The command rows -/

/-- The value matches the pattern of some row; an empty pattern is no pattern. -/
def SomeMatch (env : Env) (pattern : CmdAvp → Bytes) (value : Bytes) (rows : List CmdAvp) : Prop :=
  ∃ row ∈ rows, pattern row ≠ [] ∧ env.regexec (pattern row) value = true

theorem permLoop_eq (env : Env) (perm deny : CmdAvp → Bytes) (value : Bytes)
    (flag1 flag2 : Bool) (rows : List CmdAvp) :
    ((permLoop env perm deny value flag1 flag2 rows).1 = true ↔
        flag1 = true ∨ SomeMatch env perm value rows) ∧
      ((permLoop env perm deny value flag1 flag2 rows).2 = true ↔
        flag2 = true ∧ ¬ SomeMatch env deny value rows) := by
  induction rows generalizing flag1 flag2 with
  | nil => simp [permLoop, SomeMatch]
  | cons cmd rest ih =>
    rw [permLoop]
    simp only [ih]
    constructor
    · by_cases hp : perm cmd = [] <;> cases hr : env.regexec (perm cmd) value <;>
        simp [hp, hr, SomeMatch]
    · by_cases hd : deny cmd = [] <;> cases hr : env.regexec (deny cmd) value <;>
        simp [hd, hr, SomeMatch]

/-- A value is permitted by some row and denied by none. -/
theorem permitted_iff (env : Env) (perm deny : CmdAvp → Bytes) (value : Bytes)
    (rows : List CmdAvp) :
    permitted env perm deny value rows = true ↔
      SomeMatch env perm value rows ∧ ¬ SomeMatch env deny value rows := by
  obtain ⟨h1, h2⟩ := permLoop_eq env perm deny value false true rows
  unfold permitted
  cases hp : (permLoop env perm deny value false true rows).1 <;>
    cases hd : (permLoop env perm deny value false true rows).2 <;> simp_all

/-- The review of a command stops when the rows do not permit it. -/
theorem review_permitted_eq_none_iff (env : Env) (perm deny : CmdAvp → Bytes) (value : Bytes)
    (rows : List CmdAvp) :
    (if permitted env perm deny value rows then some Step.skip else none) = none ↔
      ¬ SomeMatch env perm value rows ∨ SomeMatch env deny value rows := by
  rw [ite_eq_right_iff, permitted_iff]
  simp only [reduceCtorEq, imp_false, not_and_or, not_not]

theorem SomeMatch.perm {env : Env} {pattern : CmdAvp → Bytes} {value : Bytes}
    {rows rows' : List CmdAvp} (h : rows'.Perm rows) :
    SomeMatch env pattern value rows' ↔ SomeMatch env pattern value rows := by
  simp only [SomeMatch, h.mem_iff]

/-! ## The review loop -/

section

variable (env : Env) (authoriz : Bool) (dbd : DbUser)

/-- What one AVP of the request does to the answer list. -/
def effect (nasAvp : Bytes) : Step :=
  if nasAvp = [] then .skip else (reviewAvp env authoriz dbd nasAvp).getD .skip

/-- The loop goes on after this AVP. -/
def goesOn (nasAvp : Bytes) : Bool :=
  decide (nasAvp = []) || (reviewAvp env authoriz dbd nasAvp).isSome

/-- The AVPs up to the one that is refused. -/
def reviewed (avps : List Bytes) : List Bytes := avps.takeWhile (goesOn env authoriz dbd)

/-- The answer list after the effects of some AVPs. -/
def Review.addEffects (st : Review) (avps : List Bytes) : Review :=
  avps.foldl (fun st nasAvp => st.add (effect env authoriz dbd nasAvp)) st

@[simp] theorem Review.add_skip (st : Review) : st.add .skip = st := by
  simp [Review.add, Step.skip]

/-- **The review loop** leaves the effects of the AVPs before the first refused one,
and goes through when no AVP is refused. -/
theorem reviewLoop_eq (st : Review) (avps : List Bytes) :
    reviewLoop env authoriz dbd st avps =
      if ∀ a ∈ avps, goesOn env authoriz dbd a = true then
        .ok (st.addEffects env authoriz dbd avps)
      else .error (st.addEffects env authoriz dbd (reviewed env authoriz dbd avps)) := by
  induction avps generalizing st with
  | nil => simp [reviewLoop, Review.addEffects]
  | cons a rest ih =>
    rw [reviewLoop]
    by_cases hnil : a = []
    · -- an empty AVP is passed over
      have hgo : goesOn env authoriz dbd a = true := by simp [goesOn, hnil]
      have heff : effect env authoriz dbd a = .skip := by simp [effect, hnil]
      rw [if_pos hnil, ih]
      simp [reviewed, Review.addEffects, hgo, heff]
    · rw [if_neg hnil]
      cases hrev : reviewAvp env authoriz dbd a with
      | none =>
        -- `throw 1`: what stands on the list is what the AVPs before this one put there
        have hgo : goesOn env authoriz dbd a = false := by simp [goesOn, hnil, hrev]
        simp [reviewed, Review.addEffects, hgo]
      | some s =>
        have hgo : goesOn env authoriz dbd a = true := by simp [goesOn, hrev]
        have heff : effect env authoriz dbd a = s := by simp [effect, hnil, hrev]
        simp only
        rw [ih]
        simp [reviewed, Review.addEffects, hgo, heff]

theorem addEffects_bavpair (st : Review) (avps : List Bytes) :
    (st.addEffects env authoriz dbd avps).bavpair =
      st.bavpair ++ avps.flatMap fun a => (effect env authoriz dbd a).put.toList := by
  induction avps generalizing st with
  | nil => simp [Review.addEffects]
  | cons a rest ih =>
    rw [List.flatMap_cons, ← List.append_assoc]
    exact ih (st.add (effect env authoriz dbd a))

theorem addEffects_used (st : Review) (avps : List Bytes) :
    (st.addEffects env authoriz dbd avps).used =
      st.used ++ avps.flatMap fun a => (effect env authoriz dbd a).row.toList := by
  induction avps generalizing st with
  | nil => simp [Review.addEffects]
  | cons a rest ih =>
    rw [List.flatMap_cons, ← List.append_assoc]
    exact ih (st.add (effect env authoriz dbd a))

theorem addEffects_added (st : Review) (avps : List Bytes) :
    (st.addEffects env authoriz dbd avps).added = st.added := by
  induction avps generalizing st with
  | nil => rfl
  | cons a rest ih => exact ih (st.add (effect env authoriz dbd a))

theorem addEffects_replaced_pos (st : Review) (avps : List Bytes) :
    0 < (st.addEffects env authoriz dbd avps).replaced ↔
      0 < st.replaced ∨ ∃ a ∈ avps, (effect env authoriz dbd a).replaces = true := by
  induction avps generalizing st with
  | nil => simp [Review.addEffects]
  | cons a rest ih =>
    refine (ih (st.add (effect env authoriz dbd a))).trans ?_
    rw [List.exists_mem_cons_iff, Review.add]
    cases (effect env authoriz dbd a).replaces <;> simp

end

/-! ## Step k -/

/-- The row is one of the requested service and protocol. -/
def UserAvp.isOwn (curService curProtocol : Bytes) (r : UserAvp) : Bool :=
  r.compareService curService && r.compareProtocol curProtocol

/-- Step k looks at the rows of the service only. -/
theorem addLoop_filter (curService curProtocol : Bytes) (st : Review) (rows : List UserAvp) :
    addLoop curService curProtocol st (rows.filter (·.isOwn curService curProtocol)) =
      addLoop curService curProtocol st rows := by
  induction rows generalizing st with
  | nil => rfl
  | cons avp rest ih =>
    have hskip : (!avp.compareService curService || !avp.compareProtocol curProtocol)
        = !avp.isOwn curService curProtocol := (Bool.not_and _ _).symm
    rw [List.filter_cons, addLoop, hskip]
    cases hown : avp.isOwn curService curProtocol
    · simpa using ih st
    · rw [if_pos rfl, addLoop, hskip, hown]
      simp only [ih]

/-- A row that step k may add: of the service, without a `*`, not empty. -/
def UserAvp.isEligible (curService curProtocol : Bytes) (r : UserAvp) : Prop :=
  r.isOwn curService curProtocol = true ∧ optional r.avp = false ∧ r.avp ≠ []

/-- What step k has done to the answer list. -/
structure Extends (curService curProtocol : Bytes) (rows : List UserAvp) (st st' : Review)
    (news : List UserAvp) : Prop where
  bavpair : st'.bavpair = st.bavpair ++ news.map UserAvp.avp
  added : st'.added = st.added ++ news
  replaced : st'.replaced = st.replaced
  used : st'.used = st.used
  /-- The additions are eligible rows of the record. -/
  eligible : ∀ r ∈ news, r ∈ rows ∧ r.isEligible curService curProtocol
  /-- Every eligible row is among the additions or has its attribute on the list. -/
  covers : ∀ r ∈ rows, r.isEligible curService curProtocol →
    r ∈ news ∨ ∃ x ∈ st'.bavpair, matchAttr r.avp x = true
  /-- Nothing is added exactly when all eligible rows had their attribute there. -/
  none : news = [] ↔ ∀ r ∈ rows, r.isEligible curService curProtocol →
    ∃ x ∈ st.bavpair, matchAttr r.avp x = true

/-- A row that is left out changes nothing. -/
theorem Extends.cons_skip {curService curProtocol : Bytes} {avp : UserAvp} {rows : List UserAvp}
    {st st' : Review} {news : List UserAvp} (h : Extends curService curProtocol rows st st' news)
    (hskip : avp.isEligible curService curProtocol →
      ∃ x ∈ st.bavpair, matchAttr avp.avp x = true) :
    Extends curService curProtocol (avp :: rows) st st' news := by
  refine ⟨h.bavpair, h.added, h.replaced, h.used,
    fun r hr => ⟨.tail _ (h.eligible r hr).1, (h.eligible r hr).2⟩, ?_, ?_⟩
  · intro r hr helig
    rcases List.mem_cons.mp hr with rfl | hr
    · obtain ⟨x, hx, hmatch⟩ := hskip helig
      exact .inr ⟨x, h.bavpair ▸ List.mem_append_left _ hx, hmatch⟩
    · exact h.covers r hr helig
  · rw [h.none, List.forall_mem_cons]
    exact ⟨fun hall => ⟨hskip, hall⟩, fun hall => hall.2⟩

/-- A row that is added stands first among the additions. -/
theorem Extends.cons_add {curService curProtocol : Bytes} {avp : UserAvp} {rows : List UserAvp}
    {st st' : Review} {news : List UserAvp}
    (h : Extends curService curProtocol rows
      { st with bavpair := st.bavpair ++ [avp.avp], added := st.added ++ [avp] } st' news)
    (helig : avp.isEligible curService curProtocol)
    (hnew : ¬ ∃ x ∈ st.bavpair, matchAttr avp.avp x = true) :
    Extends curService curProtocol (avp :: rows) st st' (avp :: news) := by
  refine ⟨by simp [h.bavpair], by simp [h.added], h.replaced, h.used, ?_, ?_, ?_⟩
  · intro r hr
    rcases List.mem_cons.mp hr with rfl | hr
    · exact ⟨.head _, helig⟩
    · exact ⟨.tail _ (h.eligible r hr).1, (h.eligible r hr).2⟩
  · intro r hr hre
    rcases List.mem_cons.mp hr with rfl | hr
    · exact .inl (.head _)
    · exact (h.covers r hr hre).imp_left (.tail _)
  · simp only [reduceCtorEq, false_iff]
    intro hall
    exact hnew (hall avp (.head _) helig)

/-- **Step k**, when the array has room for it. -/
theorem addLoop_spec {curService curProtocol : Bytes} {rows : List UserAvp} {st st' : Review}
    (h : addLoop curService curProtocol st rows = some st') :
    ∃ news, Extends curService curProtocol rows st st' news := by
  induction rows generalizing st with
  | nil =>
    obtain rfl : st = st' := by simpa [addLoop] using h
    exact ⟨[], by simp, by simp, rfl, rfl, by simp, by simp, by simp⟩
  | cons avp rest ih =>
    rw [addLoop] at h
    split at h
    · -- a row of another service or protocol
      next hown =>
      obtain ⟨news, hext⟩ := ih h
      refine ⟨news, hext.cons_skip fun helig => ?_⟩
      simp_all [UserAvp.isEligible, UserAvp.isOwn]
    · next hown =>
      split at h
      · next hopt =>
        obtain ⟨news, hext⟩ := ih h
        refine ⟨news, hext.cons_skip fun helig => ?_⟩
        simp_all [UserAvp.isEligible]
      · next hopt =>
        split at h
        · next hthere =>
          obtain ⟨news, hext⟩ := ih h
          exact ⟨news, hext.cons_skip fun _ => List.any_eq_true.mp hthere⟩
        · next hthere =>
          split at h
          · next hnil =>
            obtain ⟨news, hext⟩ := ih h
            exact ⟨news, hext.cons_skip fun helig => absurd hnil helig.2.2⟩
          · next hnil =>
            split at h
            · contradiction
            · -- the row is put on the list, and the later rows are compared with it
              obtain ⟨news, hext⟩ := ih h
              refine ⟨avp :: news, hext.cons_add ⟨?_, ?_, hnil⟩ ?_⟩
              · simpa [UserAvp.isOwn] using hown
              · simpa using hopt
              · rwa [List.any_eq_true] at hthere

/-- Step k does nothing to a request whose service and protocol no row has. -/
theorem addLoop_of_not_own {curService curProtocol : Bytes} {rows : List UserAvp} (st : Review)
    (h : ∀ r ∈ rows, r.isOwn curService curProtocol = false) :
    addLoop curService curProtocol st rows = some st := by
  rw [← addLoop_filter, List.filter_eq_nil_iff.mpr (by simpa using h), addLoop]

end Tacppd
