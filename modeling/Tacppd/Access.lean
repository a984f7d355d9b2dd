/-
# Access lists

`CoreAccess` keeps the numbered access lists that guard the management interfaces.  A list
is made by the first rule that is added to it, its rules are tried in the order in which
they were added, and the first one whose pattern matches decides.

The abstract side is a map from numbers to lists of rules.  `access_refines` says that the
stored lists refine it over any run, and that a check gives the verdict of the map for
texts that fit the buffers of the check.

The regular expressions are a parameter: which pattern matches which string.
-/
import Tacppd.Bytes
import Tacppd.Lib.Keyed
import Tacppd.Lib.Machine

namespace Tacppd

/-- What a rule says about the strings that match it. -/
inductive AclVerdict
  | permit
  | deny
  deriving DecidableEq, Repr

/-! ## Entries -/

/-- `Acl_entry`: one of the two patterns is empty. -/
structure AclEntry where
  permit : Bytes
  deny : Bytes
  deriving DecidableEq, Repr

namespace AclEntry

/-- The pattern of the entry for a verdict: `getPermit` and `getDeny`. -/
def pattern (e : AclEntry) : AclVerdict → Bytes
  | .permit => e.permit
  | .deny => e.deny

/-- `Acl_entry(p, "")` and `Acl_entry("", d)`. -/
def new (p : Bytes) : AclVerdict → AclEntry
  | .permit => ⟨p, []⟩
  | .deny => ⟨[], p⟩

/-- `regcomp` and `regexec` on what two buffers of 300 bytes hold; an empty pattern is not
compiled. -/
def hit (regex : Bytes → Bytes → Bool) (p st : Bytes) : Bool :=
  let s := snprintf 299 st
  let p := snprintf 299 p
  decide (0 < p.length) && regex p s

def checkPermit (regex : Bytes → Bytes → Bool) (e : AclEntry) (st : Bytes) : Bool :=
  hit regex e.permit st

/-- Note the sense of the answer: it is false for a string that is denied. -/
def checkDeny (regex : Bytes → Bytes → Bool) (e : AclEntry) (st : Bytes) : Bool :=
  !hit regex e.deny st

end AclEntry

/-! ## One list -/

/-- `Acl_data`. -/
structure AclData where
  number : ℤ
  acl : List AclEntry
  deriving DecidableEq, Repr

namespace AclData

/-- The loop of `check`. -/
def checkLoop (regex : Bytes → Bytes → Bool) (s : Bytes) : List AclEntry → Bool
  | [] => false
  | tmp :: acl =>
    if !tmp.checkDeny regex s then false
    else if tmp.checkPermit regex s then true
    else checkLoop regex s acl

def check (regex : Bytes → Bytes → Bool) (a : AclData) (s : Bytes) : Bool :=
  checkLoop regex s a.acl

/-- A rule is put at the end, unless its pattern is empty. -/
def addRule (v : AclVerdict) (p : Bytes) (a : AclData) : Bool × AclData :=
  if cstr p ≠ [] then (true, { a with acl := a.acl ++ [.new (cstr p) v] }) else (false, a)

def addPermit : Bytes → AclData → Bool × AclData := addRule .permit

def addDeny : Bytes → AclData → Bool × AclData := addRule .deny

/-- The loop of `del_permit` and `del_deny`: the first entry with the pattern goes. -/
def delLoop (v : AclVerdict) (p : Bytes) : List AclEntry → Bool × List AclEntry
  | [] => (false, [])
  | tmp :: acl =>
    if tmp.pattern v = p then (true, acl)
    else ((delLoop v p acl).1, tmp :: (delLoop v p acl).2)

def delRule (v : AclVerdict) (p : Bytes) (a : AclData) : Bool × AclData :=
  if cstr p ≠ [] then
    ((delLoop v (cstr p) a.acl).1, { a with acl := (delLoop v (cstr p) a.acl).2 })
  else (false, a)

def delPermit : Bytes → AclData → Bool × AclData := delRule .permit

def delDeny : Bytes → AclData → Bool × AclData := delRule .deny

end AclData

/-! ## All lists -/

/-- `CoreAccess`. -/
structure CoreAccess where
  acl : List AclData
  deriving DecidableEq, Repr

namespace CoreAccess

open Keyed (look alter dropAll)

def add (n : ℤ) (c : CoreAccess) : CoreAccess :=
  if (look AclData.number c.acl n).isSome then c else ⟨c.acl ++ [⟨n, []⟩]⟩

/-- A rule goes into the list with the number, or into a new one.  What the list says about
the rule is not passed on. -/
def addRule (rule : AclData → Bool × AclData) (p : ℤ) (c : CoreAccess) : Bool × CoreAccess :=
  if (look AclData.number c.acl p).isSome then
    (true, ⟨alter AclData.number p (fun tmp => (rule tmp).2) c.acl⟩)
  else (true, ⟨c.acl ++ [(rule ⟨p, []⟩).2]⟩)

def addPermit (p : ℤ) (r : Bytes) : CoreAccess → Bool × CoreAccess :=
  addRule (AclData.addPermit r) p

def addDeny (p : ℤ) (r : Bytes) : CoreAccess → Bool × CoreAccess :=
  addRule (AclData.addDeny r) p

def del (p : ℤ) (c : CoreAccess) : Bool × CoreAccess :=
  (c.acl.any fun tmp => decide (tmp.number = p), ⟨dropAll AclData.number p c.acl⟩)

/-- The answer says whether there is a list with the number. -/
def delRule (rule : AclData → Bool × AclData) (p : ℤ) (c : CoreAccess) : Bool × CoreAccess :=
  ((look AclData.number c.acl p).isSome,
    ⟨alter AclData.number p (fun tmp => (rule tmp).2) c.acl⟩)

def delPermit (p : ℤ) (r : Bytes) : CoreAccess → Bool × CoreAccess :=
  delRule (AclData.delPermit r) p

def delDeny (p : ℤ) (r : Bytes) : CoreAccess → Bool × CoreAccess :=
  delRule (AclData.delDeny r) p

/-- The loop of `check`: it goes on behind a list that does not permit. -/
def checkLoop (regex : Bytes → Bytes → Bool) (p : ℤ) (r : Bytes) : List AclData → Bool
  | [] => false
  | tmp :: acl =>
    if tmp.number = p then
      if tmp.check regex r then true else checkLoop regex p r acl
    else checkLoop regex p r acl

def check (regex : Bytes → Bytes → Bool) (p : ℤ) (r : Bytes) (c : CoreAccess) : Bool :=
  checkLoop regex p r c.acl

end CoreAccess

/-- The operations on the access lists. -/
inductive AccessOp
  | add (n : ℤ)
  | addPermit (n : ℤ) (r : Bytes)
  | addDeny (n : ℤ) (r : Bytes)
  | del (n : ℤ)
  | delPermit (n : ℤ) (r : Bytes)
  | delDeny (n : ℤ) (r : Bytes)
  deriving DecidableEq, Repr

/-- The access lists under their operations; `add` gives no answer. -/
def coreAccess : Machine CoreAccess AccessOp (Option Bool) Empty where
  init := ⟨[]⟩
  step c
    | .add n => .ok (c.add n, none)
    | .addPermit n r => .ok ((c.addPermit n r).2, some (c.addPermit n r).1)
    | .addDeny n r => .ok ((c.addDeny n r).2, some (c.addDeny n r).1)
    | .del n => .ok ((c.del n).2, some (c.del n).1)
    | .delPermit n r => .ok ((c.delPermit n r).2, some (c.delPermit n r).1)
    | .delDeny n r => .ok ((c.delDeny n r).2, some (c.delDeny n r).1)

/-! ## What access lists are for -/

structure AclRule where
  verdict : AclVerdict
  pattern : Bytes
  deriving DecidableEq, Repr

/-- The first rule whose pattern matches decides; what no rule matches is denied. -/
def firstMatch (regex : Bytes → Bytes → Bool) (s : Bytes) (rules : List AclRule) : AclVerdict :=
  ((rules.find? fun r => regex r.pattern s).map AclRule.verdict).getD .deny

/-- The rules under every number; nothing where there is no list. -/
abbrev AccessMap := ℤ → Option (List AclRule)

namespace AccessMap

/-- The rule at the end of its list, which is made where there is none. -/
def addRule (v : AclVerdict) (n : ℤ) (r : Bytes) (a : AccessMap) : AccessMap :=
  Function.update a n
    (some ((a n).getD [] ++ if cstr r = [] then [] else [⟨v, cstr r⟩]))

/-- The first rule that is equal is dropped from its list. -/
def delRule (v : AclVerdict) (n : ℤ) (r : Bytes) (a : AccessMap) : AccessMap :=
  Function.update a n ((a n).map fun rules => rules.erase ⟨v, cstr r⟩)

/-- The verdict on a string; a list that does not exist denies. -/
def verdict (regex : Bytes → Bytes → Bool) (a : AccessMap) (n : ℤ) (s : Bytes) : AclVerdict :=
  firstMatch regex s ((a n).getD [])

end AccessMap

/-- The map under the same operations. -/
def accessSpec : Machine AccessMap AccessOp (Option Bool) Empty where
  init := fun _ => none
  step a
    | .add n => .ok (Function.update a n (some ((a n).getD [])), none)
    | .addPermit n r => .ok (a.addRule .permit n r, some true)
    | .addDeny n r => .ok (a.addRule .deny n r, some true)
    | .del n => .ok (Function.update a n none, some (a n).isSome)
    | .delPermit n r => .ok (a.delRule .permit n r, some (a n).isSome)
    | .delDeny n r => .ok (a.delRule .deny n r, some (a n).isSome)

/-! ## The map of the stored lists -/

/-- The rule of an entry. -/
def AclEntry.rule (e : AclEntry) : AclRule :=
  if e.deny = [] then ⟨.permit, e.permit⟩ else ⟨.deny, e.deny⟩

/-- The map that is stored. -/
def CoreAccess.rules (c : CoreAccess) : AccessMap := fun n =>
  (Keyed.look AclData.number c.acl n).map fun a => a.acl.map AclEntry.rule

/-- An entry has one of the two patterns, a C string. -/
def AclEntry.Single (e : AclEntry) : Prop := ∃ v p, p ≠ [] ∧ (0 : UInt8) ∉ p ∧ e = .new p v

/-- Every number has one list, and every entry of it one pattern. -/
structure CoreAccess.Sound (c : CoreAccess) : Prop where
  distinct : Keyed.Distinct AclData.number c.acl
  single : ∀ a ∈ c.acl, ∀ e ∈ a.acl, e.Single

section

variable {v v' : AclVerdict} {p r : Bytes} {n m : ℤ} {c : CoreAccess} {es : List AclEntry}

theorem rule_new (hp : p ≠ []) : (AclEntry.new p v).rule = ⟨v, p⟩ := by
  cases v with
  | permit => rfl
  | deny => rw [AclEntry.new, AclEntry.rule, if_neg hp]

theorem pattern_new (hr : r ≠ []) :
    (AclEntry.new p v).pattern v' = r ↔ (⟨v, p⟩ : AclRule) = ⟨v', r⟩ := by
  cases v <;> cases v' <;> simp [AclEntry.new, AclEntry.pattern, hr.symm]

/-- A rule of a list has a pattern. -/
theorem not_mem_rules_nil (h : ∀ e ∈ es, e.Single) :
    (⟨v, []⟩ : AclRule) ∉ es.map AclEntry.rule := by
  intro hmem
  obtain ⟨e, he, hrule⟩ := List.mem_map.mp hmem
  obtain ⟨v', p, hp, -, rfl⟩ := h e he
  rw [rule_new hp] at hrule
  exact hp (congrArg AclRule.pattern hrule)

/-- The loop drops the first rule that is equal. -/
theorem rules_delLoop (h : ∀ e ∈ es, e.Single) (hr : r ≠ []) :
    (AclData.delLoop v r es).2.map AclEntry.rule = (es.map AclEntry.rule).erase ⟨v, r⟩ := by
  induction es with
  | nil => rfl
  | cons e es ih =>
    rw [List.forall_mem_cons] at h
    obtain ⟨⟨v', p, hp, -, rfl⟩, hes⟩ := h
    rw [AclData.delLoop, List.map_cons, rule_new hp]
    -- the entry has the pattern for the verdict exactly when it is the rule
    by_cases heq : (AclEntry.new p v').pattern v = r
    · rw [if_pos heq, (pattern_new hr).mp heq, List.erase_cons_head]
    · have hne : (⟨v', p⟩ : AclRule) ≠ ⟨v, r⟩ := fun h => heq ((pattern_new hr).mpr h)
      rw [if_neg heq, List.map_cons, ih hes, rule_new hp, List.erase_cons_tail (by simpa using hne)]

theorem mem_delLoop (h : ∀ e ∈ es, e.Single) : ∀ e ∈ (AclData.delLoop v r es).2, e.Single := by
  induction es with
  | nil => exact h
  | cons e es ih =>
    rw [List.forall_mem_cons] at h
    rw [AclData.delLoop]
    split
    · exact h.2
    · exact List.forall_mem_cons.mpr ⟨h.1, ih h.2⟩

/-! ### One list -/

theorem rules_addRule (a : AclData) :
    (AclData.addRule v r a).2.acl.map AclEntry.rule =
      a.acl.map AclEntry.rule ++ if cstr r = [] then [] else [⟨v, cstr r⟩] := by
  rw [AclData.addRule]
  by_cases hr : cstr r = []
  · simp [hr]
  · rw [if_pos hr, if_neg hr, List.map_append, List.map_singleton, rule_new hr]

theorem rules_delRule {a : AclData} (h : ∀ e ∈ a.acl, e.Single) :
    (AclData.delRule v r a).2.acl.map AclEntry.rule =
      (a.acl.map AclEntry.rule).erase ⟨v, cstr r⟩ := by
  rw [AclData.delRule]
  by_cases hr : cstr r = []
  · rw [if_neg (not_not.mpr hr), hr, List.erase_of_not_mem (not_mem_rules_nil h)]
  · rw [if_pos hr]
    exact rules_delLoop h hr

/-- What a change of one list keeps. -/
structure AclData.Keeps (rule : AclData → Bool × AclData) : Prop where
  number : ∀ a, (rule a).2.number = a.number
  single : ∀ a : AclData, (∀ e ∈ a.acl, e.Single) → ∀ e ∈ (rule a).2.acl, e.Single

theorem keeps_addRule : AclData.Keeps (AclData.addRule v r) := by
  constructor
  · intro a
    rw [AclData.addRule]
    split <;> rfl
  · intro a ha
    rw [AclData.addRule]
    split
    · next hr =>
      intro e he
      rcases List.mem_append.mp he with he | he
      · exact ha e he
      · exact ⟨v, cstr r, hr, zero_not_mem_cstr r, List.mem_singleton.mp he⟩
    · exact ha

theorem keeps_delRule : AclData.Keeps (AclData.delRule v r) := by
  constructor
  · intro a
    rw [AclData.delRule]
    split <;> rfl
  · intro a ha
    rw [AclData.delRule]
    split
    · exact mem_delLoop ha
    · exact ha

/-! ### All lists -/

namespace CoreAccess

variable {rule : AclData → Bool × AclData}

theorem sound_init : (⟨[]⟩ : CoreAccess).Sound := ⟨List.nodup_nil, by simp⟩

/-- A new list at the end. -/
theorem Sound.concat (h : c.Sound) {a : AclData}
    (ha : Keyed.look AclData.number c.acl a.number = none) (hs : ∀ e ∈ a.acl, e.Single) :
    Sound ⟨c.acl ++ [a]⟩ := by
  refine ⟨h.distinct.concat ha, ?_⟩
  intro b hb
  rcases List.mem_append.mp hb with hb | hb
  · exact h.single b hb
  · rwa [List.mem_singleton.mp hb]

/-- A list is changed. -/
theorem Sound.alter (h : c.Sound) (hrule : AclData.Keeps rule) :
    Sound ⟨Keyed.alter AclData.number n (fun tmp => (rule tmp).2) c.acl⟩ :=
  ⟨h.distinct.alter hrule.number, Keyed.forall_mem_alter hrule.single h.single⟩

theorem Sound.addRule (h : c.Sound) (hrule : AclData.Keeps rule) :
    (CoreAccess.addRule rule n c).2.Sound := by
  rw [CoreAccess.addRule]
  split
  · exact h.alter hrule
  · next hnone =>
    rw [Option.not_isSome_iff_eq_none] at hnone
    have hnumber := hrule.number ⟨n, []⟩
    refine h.concat ?_ (hrule.single _ (by simp))
    rw [hnumber]
    exact hnone

/-- The map after a change of one list. -/
theorem rules_alter (f : List AclRule → List AclRule) (h : c.Sound) (hrule : AclData.Keeps rule)
    (hf : ∀ a : AclData, (∀ e ∈ a.acl, e.Single) →
      (rule a).2.acl.map AclEntry.rule = f (a.acl.map AclEntry.rule)) :
    rules ⟨Keyed.alter AclData.number n (fun tmp => (rule tmp).2) c.acl⟩ =
      Function.update c.rules n ((c.rules n).map f) := by
  funext m
  rw [rules, Keyed.look_alter hrule.number, Function.update_apply]
  split
  · rw [rules]
    rcases hlook : Keyed.look AclData.number c.acl n with _ | a
    · rfl
    · exact congrArg some (hf a (h.single a (Keyed.mem_of_look hlook)))
  · rfl

/-- The map with a new list at the end. -/
theorem rules_concat {a : AclData} (hnone : Keyed.look AclData.number c.acl a.number = none) :
    rules ⟨c.acl ++ [a]⟩ = Function.update c.rules a.number (some (a.acl.map AclEntry.rule)) := by
  funext m
  rw [rules, Keyed.look_concat, Function.update_apply]
  by_cases hm : a.number = m
  · subst hm
    rw [hnone, if_pos rfl, if_pos rfl]
    rfl
  · rw [if_neg hm, if_neg (Ne.symm hm), Option.or_none]
    rfl

theorem isSome_rules (c : CoreAccess) (n : ℤ) :
    (c.rules n).isSome = (Keyed.look AclData.number c.acl n).isSome := by
  rw [rules, Option.isSome_map]

theorem rules_eq_none (h : ¬ (Keyed.look AclData.number c.acl n).isSome = true) :
    c.rules n = none := by
  rw [Option.not_isSome_iff_eq_none] at h
  rw [rules, h]
  rfl

theorem rules_add (c : CoreAccess) (n : ℤ) :
    (c.add n).rules = Function.update c.rules n (some ((c.rules n).getD [])) := by
  rw [add]
  split
  · next hsome =>
    rw [← isSome_rules] at hsome
    obtain ⟨rs, hrs⟩ := Option.isSome_iff_exists.mp hsome
    rw [hrs, Option.getD_some, ← hrs, Function.update_eq_self]
  · next hnone =>
    rw [rules_eq_none hnone]
    exact rules_concat (Option.not_isSome_iff_eq_none.mp hnone)

theorem rules_addRule (h : c.Sound) (v : AclVerdict) (n : ℤ) (r : Bytes) :
    (c.addRule (AclData.addRule v r) n).2.rules = c.rules.addRule v n r := by
  rw [addRule, AccessMap.addRule]
  split
  · next hsome =>
    rw [← isSome_rules] at hsome
    obtain ⟨rs, hrs⟩ := Option.isSome_iff_exists.mp hsome
    rw [rules_alter (fun rules => rules ++ if cstr r = [] then [] else [⟨v, cstr r⟩]) h
      keeps_addRule fun a _ => Tacppd.rules_addRule a, hrs]
    rfl
  · next hnone =>
    have hnumber : (AclData.addRule v r ⟨n, []⟩).2.number = n := keeps_addRule.number _
    have hlook := Option.not_isSome_iff_eq_none.mp hnone
    rw [rules_concat (by rw [hnumber]; exact hlook), hnumber, Tacppd.rules_addRule,
      rules_eq_none hnone]
    rfl

theorem addRule_answer (rule : AclData → Bool × AclData) (n : ℤ) (c : CoreAccess) :
    (c.addRule rule n).1 = true := by
  rw [addRule]
  split <;> rfl

theorem rules_del (c : CoreAccess) (n : ℤ) :
    (c.del n).2.rules = Function.update c.rules n none := by
  funext m
  rw [del, rules, Keyed.look_dropAll, Function.update_apply]
  split <;> rfl

theorem del_answer (c : CoreAccess) (n : ℤ) : (c.del n).1 = (c.rules n).isSome := by
  rw [isSome_rules, Bool.eq_iff_iff, Keyed.look_isSome_iff]
  simp [del]

theorem rules_delRule (h : c.Sound) (v : AclVerdict) (n : ℤ) (r : Bytes) :
    (c.delRule (AclData.delRule v r) n).2.rules = c.rules.delRule v n r :=
  rules_alter (fun rules => rules.erase ⟨v, cstr r⟩) h keeps_delRule
    fun _ ha => Tacppd.rules_delRule ha

end CoreAccess

/-! ## Runs -/

/-- The stored lists stand for the map. -/
structure StandsFor (c : CoreAccess) (a : AccessMap) : Prop where
  sound : c.Sound
  rules : c.rules = a

/-- **One operation** on the lists is the same operation on the map, with the same
answer. -/
theorem access_step {a : AccessMap} (h : StandsFor c a) (op : AccessOp) {c' : CoreAccess}
    {out : Option Bool} (hs : coreAccess.step c op = .ok (c', out)) :
    ∃ a', accessSpec.step a op = .ok (a', out) ∧ StandsFor c' a' := by
  obtain ⟨hsound, rfl⟩ := h
  cases op with
  | add n =>
    obtain ⟨rfl, rfl⟩ := Prod.mk.inj (Except.ok.inj hs)
    refine ⟨_, rfl, ?_, CoreAccess.rules_add c n⟩
    rw [CoreAccess.add]
    split
    · exact hsound
    · next hnone => exact hsound.concat (Option.not_isSome_iff_eq_none.mp hnone) (by simp)
  | addPermit n r =>
    obtain ⟨rfl, rfl⟩ := Prod.mk.inj (Except.ok.inj hs)
    have hanswer : (c.addPermit n r).1 = true := CoreAccess.addRule_answer ..
    rw [hanswer]
    exact ⟨_, rfl, hsound.addRule keeps_addRule, CoreAccess.rules_addRule hsound ..⟩
  | addDeny n r =>
    obtain ⟨rfl, rfl⟩ := Prod.mk.inj (Except.ok.inj hs)
    have hanswer : (c.addDeny n r).1 = true := CoreAccess.addRule_answer ..
    rw [hanswer]
    exact ⟨_, rfl, hsound.addRule keeps_addRule, CoreAccess.rules_addRule hsound ..⟩
  | del n =>
    obtain ⟨rfl, rfl⟩ := Prod.mk.inj (Except.ok.inj hs)
    rw [CoreAccess.del_answer]
    refine ⟨_, rfl, ⟨hsound.distinct.dropAll, ?_⟩, CoreAccess.rules_del c n⟩
    exact fun a ha => hsound.single a (List.mem_of_mem_filter ha)
  | delPermit n r =>
    obtain ⟨rfl, rfl⟩ := Prod.mk.inj (Except.ok.inj hs)
    rw [CoreAccess.delPermit, CoreAccess.delRule, ← CoreAccess.isSome_rules]
    exact ⟨_, rfl, hsound.alter keeps_delRule, CoreAccess.rules_delRule hsound ..⟩
  | delDeny n r =>
    obtain ⟨rfl, rfl⟩ := Prod.mk.inj (Except.ok.inj hs)
    rw [CoreAccess.delDeny, CoreAccess.delRule, ← CoreAccess.isSome_rules]
    exact ⟨_, rfl, hsound.alter keeps_delRule, CoreAccess.rules_delRule hsound ..⟩

end

/-! ## The check -/

section

variable {regex : Bytes → Bytes → Bool} {s : Bytes}

/-- A pattern and a string that fit their buffers. -/
theorem hit_new (hs : (cstr s).length ≤ 298) {p : Bytes} (h0 : (0 : UInt8) ∉ p)
    (hp : p.length ≤ 298) : AclEntry.hit regex p s = (decide (p ≠ []) && regex p (cstr s)) := by
  have hcut : snprintf 299 s = cstr s := List.take_of_length_le hs
  rw [AclEntry.hit, hcut, snprintf_eq_self h0 hp]
  simp only [List.length_pos_iff]

/-- The loop over the entries: the first rule that matches decides. -/
theorem checkLoop_eq (hs : (cstr s).length ≤ 298) {es : List AclEntry} (h : ∀ e ∈ es, e.Single)
    (hfits : ∀ r ∈ es.map AclEntry.rule, r.pattern.length ≤ 298) :
    AclData.checkLoop regex s es =
      decide (firstMatch regex (cstr s) (es.map AclEntry.rule) = .permit) := by
  induction es with
  | nil => rfl
  | cons e es ih =>
    rw [List.forall_mem_cons] at h
    obtain ⟨⟨v, p, hp, h0, rfl⟩, hes⟩ := h
    rw [List.map_cons, rule_new hp, List.forall_mem_cons] at hfits
    obtain ⟨hlen, hrest⟩ := hfits
    have hhit := @hit_new regex s hs p h0 hlen
    have hnone := @hit_new regex s hs [] List.not_mem_nil (Nat.zero_le _)
    have hmatch : AclEntry.hit regex p s = regex p (cstr s) := by rw [hhit]; simp [hp]
    have hempty : AclEntry.hit regex [] s = false := by rw [hnone]; simp
    rw [AclData.checkLoop, List.map_cons, rule_new hp, firstMatch, List.find?_cons,
      AclEntry.checkDeny, AclEntry.checkPermit, ih hes hrest, firstMatch]
    -- the other pattern of the entry is empty and does not match
    cases v with
    | permit =>
      simp only [AclEntry.new, hmatch, hempty]
      cases regex p (cstr s) <;> simp
    | deny =>
      simp only [AclEntry.new, hmatch, hempty]
      cases regex p (cstr s) <;> simp

/-- A check goes to the one list with the number. -/
theorem CoreAccess.checkLoop_eq {l : List AclData} (h : Keyed.Distinct AclData.number l) (n : ℤ) :
    CoreAccess.checkLoop regex n s l =
      ((Keyed.look AclData.number l n).map fun a => a.check regex s).getD false := by
  -- behind the list that does not permit there is no other one with its number
  have hrest : ∀ l : List AclData, Keyed.look AclData.number l n = none →
      CoreAccess.checkLoop regex n s l = false := by
    intro l hl
    rw [Keyed.look_eq_none_iff] at hl
    induction l with
    | nil => rfl
    | cons a l ih =>
      rw [List.forall_mem_cons] at hl
      rw [CoreAccess.checkLoop, if_neg hl.1, ih hl.2]
  induction l with
  | nil => rfl
  | cons a l ih =>
    rw [Keyed.Distinct, List.map_cons, List.nodup_cons] at h
    rw [CoreAccess.checkLoop, Keyed.look_cons]
    split
    · next ha =>
      subst ha
      have hnone : Keyed.look AclData.number l a.number = none := by
        rw [Keyed.look_eq_none_iff]
        exact fun b hb heq => h.1 (heq ▸ List.mem_map_of_mem hb)
      rw [hrest l hnone]
      cases hcheck : a.check regex s <;> simp [hcheck]
    · exact ih h.2

/-- **The check** of a string that fits, against a list whose patterns fit. -/
theorem StandsFor.check {c : CoreAccess} {a : AccessMap} (h : StandsFor c a) {n : ℤ}
    (hs : (cstr s).length ≤ 298)
    (hfits : ∀ r ∈ (a n).getD [], r.pattern.length ≤ 298) :
    c.check regex n s = decide (a.verdict regex n (cstr s) = .permit) := by
  obtain ⟨hsound, rfl⟩ := h
  rw [CoreAccess.check, CoreAccess.checkLoop_eq hsound.distinct, AccessMap.verdict]
  rw [CoreAccess.rules] at hfits ⊢
  rcases hlook : Keyed.look AclData.number c.acl n with _ | d
  · rfl
  · rw [hlook] at hfits
    exact checkLoop_eq hs (hsound.single d (Keyed.mem_of_look hlook)) hfits

end

/-! ## The refinement -/

/-- **The stored lists refine the map** over any run, with the same answers; and a check of
a string that fits gives the verdict of the map, where the patterns fit. -/
theorem access_refines (regex : Bytes → Bytes → Bool) {h : List (AccessOp × Option Bool)}
    {c : CoreAccess} (hr : coreAccess.Reaches h c) :
    ∃ a, accessSpec.Reaches h a ∧ c.rules = a ∧
      ∀ n s, (cstr s).length ≤ 298 → (∀ r ∈ (a n).getD [], r.pattern.length ≤ 298) →
        c.check regex n s = decide (a.verdict regex n (cstr s) = .permit) := by
  have hinit : StandsFor coreAccess.init accessSpec.init :=
    ⟨CoreAccess.sound_init, rfl⟩
  obtain ⟨a, hra, hstands⟩ := hr.simulate coreAccess accessSpec hinit
    fun c a op c' out hstands hs => access_step hstands op hs
  exact ⟨a, hra, hstands.rules, fun n s hs hfits => hstands.check hs hfits⟩

/-- A list with two rules, and one of them dropped. -/
def accessOps : List AccessOp :=
  [.addDeny 1 (str "10.1"), .addPermit 1 (str "10."), .addDeny 2 (str "10."),
    .delDeny 1 (str "10.1")]

theorem access_refines_two :
    ∃ a, accessSpec.Reaches (coreAccess.history accessOps) a ∧
      a 1 = some [⟨.permit, str "10."⟩] ∧ a 2 = some [⟨.deny, str "10."⟩] ∧ a 3 = none ∧
      (coreAccess.final accessOps).check (fun p s => p.isPrefixOf s) 1 (str "10.1.2.3") = true := by
  obtain ⟨a, hra, hrules, hcheck⟩ :=
    access_refines (fun p s => p.isPrefixOf s) (coreAccess.reaches_history accessOps)
  have h1 : a 1 = some [⟨.permit, str "10."⟩] := by rw [← hrules]; decide +kernel
  refine ⟨a, hra, h1, ?_, ?_, ?_⟩
  · rw [← hrules]
    decide +kernel
  · rw [← hrules]
    decide +kernel
  · rw [hcheck 1 (str "10.1.2.3") (by decide +kernel) (by rw [h1]; decide +kernel),
      AccessMap.verdict, h1]
    decide +kernel

end Tacppd
