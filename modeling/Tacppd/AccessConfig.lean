/-
# Access lists in the configuration file

`Acl_data::buildcfstr` writes a list as the lines of its node, the patterns without quotes, and
`CoreAccess::applycf` makes the lists again of the commands.

`accessReadsBack_iff` says for which lists the file gives the lists back: every pattern must be a
word for the splitter, with a length that the mask accepts.
-/
import Tacppd.Access
import Tacppd.ConfSection

namespace Tacppd

/-! ## Writing and reading -/

/-- `Acl_data::buildcfstr`. -/
def AclData.buildcfstr (a : AclData) : Bytes :=
  str " access " ++ decimal a.number ++ [10] ++
    a.acl.flatMap (fun tmp =>
      (if tmp.permit ≠ [] then str "  permit " ++ tmp.permit ++ [10] else []) ++
        (if tmp.deny ≠ [] then str "  deny " ++ tmp.deny ++ [10] else [])) ++
    str "  exit"

/-- The texts of all lists, each with the newline that `Core_data::buildcf` puts behind it. -/
def CoreAccess.configText (c : CoreAccess) : Bytes := c.acl.flatMap fun a => a.buildcfstr ++ [10]

/-- The commands by their `cmdID`. -/
inductive AccessCmd
  | confAccessNo
  | confAccessNode
  | confAccessIntNoDeny
  | confAccessIntNoPermit
  | confAccessDeny
  | confAccessPermit
  deriving DecidableEq

/-- `CoreAccess::applycf`.  The texts of its errors go to nobody. -/
def CoreAccess.applycf [LongWidth] (cmdname : AccessCmd) (paramList up : List Bytes)
    (c : CoreAccess) : Option CoreAccess :=
  paramList.head?.bind fun p =>
    match cmdname with
    | .confAccessNo => some (c.del (atoi p)).2
    | .confAccessNode => some (c.add (atoi p))
    | .confAccessIntNoDeny => up.head?.map fun u => (c.delDeny (atoi u) p).2
    | .confAccessIntNoPermit => up.head?.map fun u => (c.delPermit (atoi u) p).2
    | .confAccessDeny => up.head?.map fun u => (c.addDeny (atoi u) p).2
    | .confAccessPermit => up.head?.map fun u => (c.addPermit (atoi u) p).2

/-- The pattern of a rule, `{str:2-255}`. -/
def patternMask : ParamMask := .str 2 (some 255)

/-- The commands for access lists in `etc/tacppd.cf.xml`. -/
def accessConfig : List (List MaskWord × Option AccessCmd) :=
  [([.key (str "Exit")], none),
    ([.key (str "NO"), .key (str "ACcess"), .param (.int 0 none)], some .confAccessNo),
    ([.key (str "ACcess"), .param (.int 0 none)], some .confAccessNode)]

/-- The commands of a list. -/
def accessInner : List (List MaskWord × Option AccessCmd) :=
  [([.key (str "Exit")], none),
    ([.key (str "PErmit"), .param patternMask], some .confAccessPermit),
    ([.key (str "DEny"), .param patternMask], some .confAccessDeny),
    ([.key (str "NO"), .key (str "PErmit"), .param patternMask], some .confAccessIntNoPermit),
    ([.key (str "NO"), .key (str "DEny"), .param patternMask], some .confAccessIntNoDeny)]

def accessSection [LongWidth] : ConfSection CoreAccess AccessCmd where
  config := accessConfig
  node := .confAccessNode
  inner := accessInner
  applycf := CoreAccess.applycf

/-- The text of the lists gives the same lists, from none. -/
def AccessReadsBack [LongWidth] (c : CoreAccess) : Prop :=
  accessSection.replay c.configText ⟨[]⟩ = some (none, c)

/-- A pattern that the file can hold. -/
def PatternOk (p : Bytes) : Prop := PlainText 2 255 p

/-! ## The lines of a list -/

def AclVerdict.keyword : AclVerdict → Bytes
  | .permit => str "permit"
  | .deny => str "deny"

def AclVerdict.cmd : AclVerdict → AccessCmd
  | .permit => .confAccessPermit
  | .deny => .confAccessDeny

/-- The line of an entry. -/
def AclEntry.line (e : AclEntry) : Bytes := keyLine 2 e.rule.verdict.keyword e.rule.pattern

/-- The lines of a list. -/
def AclData.lines (a : AclData) : List Bytes :=
  keyLine 1 (str "access") (decimal a.number) :: a.acl.map AclEntry.line ++ [exitLine]

section

variable {c c' : CoreAccess} {a : AclData} {e : AclEntry} {n : ℤ} {p : Bytes} {v : AclVerdict}

theorem buildcfstr_eq_lines (ha : ∀ e ∈ a.acl, e.Single) :
    a.buildcfstr ++ [10] = a.lines.flatMap (· ++ [10]) := by
  have hentries : a.acl.flatMap (fun tmp =>
      (if tmp.permit ≠ [] then str "  permit " ++ tmp.permit ++ [10] else []) ++
        (if tmp.deny ≠ [] then str "  deny " ++ tmp.deny ++ [10] else [])) =
      (a.acl.map AclEntry.line).flatMap (· ++ [10]) := by
    rw [List.flatMap_map]
    apply List.flatMap_congr
    intro e he
    obtain ⟨v, p, hp, -, rfl⟩ := ha e he
    rw [AclEntry.line, rule_new hp]
    have hpermit : str "  permit " = 32 :: 32 :: str "permit" ++ [32] := by simp [str]
    have hdeny : str "  deny " = 32 :: 32 :: str "deny" ++ [32] := by simp [str]
    cases v <;> simp [AclEntry.new, hp, keyLine, AclVerdict.keyword, hpermit, hdeny]
  have hfront : str " access " = 32 :: str "access" ++ [32] := by simp [str]
  unfold AclData.buildcfstr AclData.lines
  rw [hentries, hfront]
  simp [keyLine, exitLine]

/-! ## The steps over the lines -/

/-- What is read of a number, an entry and a list. -/
def readEntry [LongWidth] (e : AclEntry) : Option AclEntry :=
  (lineParam patternMask (2 + e.rule.verdict.keyword.length + 1) e.rule.pattern).map fun p =>
    .new p e.rule.verdict

def readAcl [LongWidth] (a : AclData) : Option AclData :=
  if 0 ≤ a.number then (a.acl.mapM readEntry).map fun acl => ⟨a.number, acl⟩ else none

theorem keyword_verdict (v : AclVerdict) : Keyword v.keyword := by
  cases v <;> decide +kernel

theorem keyword_access : Keyword (str "access") := by decide +kernel

/-- The first line of a list. -/
theorem step_access [LongWidth] (hn : IntNumber n) (c : CoreAccess) :
    accessSection.step (none, c) (keyLine 1 (str "access") (decimal n)) =
      if 0 ≤ n then some (some [decimal n], c.add n) else none := by
  have hstep := @ConfSection.step_enter _ _ _ accessSection c (str "access") (str "ACcess")
    (.int 0 none) (accessConfig.take 2) [] _ rfl keyword_access (by decide +kernel)
    (by decide +kernel) (decimal n)
  have hparam := lineParam_decimal hn 0 none (show 1 + (str "access").length + 1 ≤ 200 by decide)
  have hatoi : atoi (decimal n) = n := atoi_toString hn
  rw [hstep, hparam]
  by_cases hpos : 0 ≤ n
  · rw [if_pos hpos, if_pos ⟨hpos, hpos, rfl⟩]
    show some (some [decimal n], c.add (atoi (decimal n))) = _
    rw [hatoi]
  · rw [if_neg hpos, if_neg fun h => hpos h.1]
    rfl

/-- The line of an entry. -/
theorem step_entry [LongWidth] (v : AclVerdict) (p u : Bytes) (c : CoreAccess) :
    accessSection.step (some [u], c) (keyLine 2 v.keyword p) =
      (lineParam patternMask (2 + v.keyword.length + 1) p).map fun p =>
        (some [u], (c.addRule (AclData.addRule v p) (atoi u)).2) := by
  cases v with
  | permit =>
    have hstep := @ConfSection.step_inner _ _ _ accessSection c .confAccessPermit [u]
      (str "permit") (str "PErmit") patternMask (accessInner.take 1)
      (accessInner.drop 2) _ rfl nofun (keyword_verdict .permit) (by decide +kernel)
      (by decide +kernel) p
    rw [AclVerdict.keyword, hstep]
    cases lineParam patternMask (2 + (str "permit").length + 1) p <;> rfl
  | deny =>
    have hstep := @ConfSection.step_inner _ _ _ accessSection c .confAccessDeny [u]
      (str "deny") (str "DEny") patternMask (accessInner.take 2)
      (accessInner.drop 3) _ rfl nofun (keyword_verdict .deny) (by decide +kernel)
      (by decide +kernel) p
    rw [AclVerdict.keyword, hstep]
    cases lineParam patternMask (2 + (str "deny").length + 1) p <;> rfl

theorem look_eq_none {rs : List AclData} (hrs : n ∉ rs.map AclData.number) :
    Keyed.look AclData.number rs n = none := by
  rw [Keyed.look_eq_none_iff]
  intro a ha heq
  exact hrs (heq ▸ List.mem_map_of_mem ha)

/-- A rule for the list at the end. -/
theorem addRule_concat {es : List AclEntry} {rs : List AclData} (hrs : n ∉ rs.map AclData.number)
    (hp : p ≠ []) (h0 : (0 : UInt8) ∉ p) :
    (CoreAccess.addRule (AclData.addRule v p) n ⟨rs ++ [⟨n, es⟩]⟩).2 =
      ⟨rs ++ [⟨n, es ++ [.new p v]⟩]⟩ := by
  have hnone := look_eq_none hrs
  have hsome : (Keyed.look AclData.number (rs ++ [⟨n, es⟩]) n).isSome = true := by
    rw [Keyed.look_concat, hnone, if_pos rfl]
    rfl
  have hrule : (AclData.addRule v p ⟨n, es⟩).2 = ⟨n, es ++ [.new p v]⟩ := by
    rw [AclData.addRule, cstr_eq_self h0, if_pos hp]
  unfold CoreAccess.addRule
  rw [if_pos hsome]
  show CoreAccess.mk _ = _
  rw [Keyed.alter_concat hnone rfl, hrule]

theorem of_readEntry [LongWidth] {e' : AclEntry} (h : readEntry e = some e') :
    ∃ p, e' = .new p e.rule.verdict ∧ p ≠ [] ∧ (0 : UInt8) ∉ p := by
  obtain ⟨p, hp, rfl⟩ := Option.map_eq_some_iff.mp h
  have hlen := (isCorrespondW_str_iff.mp (oneParam_eq_some_iff.mp hp).2).1
  refine ⟨p, rfl, ?_, (of_lineParam hp).1⟩
  rintro rfl
  exact absurd hlen (by decide)

/-- The entries of a list that is at the end. -/
theorem run_entries [LongWidth] (hn : IntNumber n) {es done : List AclEntry} {rs : List AclData}
    (hrs : n ∉ rs.map AclData.number) :
    (es.map AclEntry.line).foldlM accessSection.step
        (some [decimal n], (⟨rs ++ [⟨n, done⟩]⟩ : CoreAccess)) =
      (es.mapM readEntry).map fun es =>
        (some [decimal n], (⟨rs ++ [⟨n, done ++ es⟩]⟩ : CoreAccess)) := by
  induction es generalizing done with
  | nil => simp
  | cons e es ih =>
    have hatoi : atoi (decimal n) = n := atoi_toString hn
    rw [List.map_cons, List.foldlM_cons, List.mapM_cons, AclEntry.line, step_entry]
    cases hread : lineParam patternMask (2 + e.rule.verdict.keyword.length + 1) e.rule.pattern with
    | none =>
      rw [readEntry, hread]
      rfl
    | some p =>
      have hentry : readEntry e = some (.new p e.rule.verdict) := by rw [readEntry, hread]; rfl
      obtain ⟨p', heq, hp, h0⟩ := of_readEntry hentry
      have hsame : p = p' := by
        cases hv : e.rule.verdict <;> rw [hv] at heq <;> simpa [AclEntry.new] using heq
      subst hsame
      rw [hentry, Option.map_some, hatoi, addRule_concat hrs hp h0]
      show (es.map AclEntry.line).foldlM accessSection.step _ = _
      rw [ih]
      cases es.mapM readEntry <;> simp

/-- **The lines of a list** under a number that is new. -/
theorem run_lines [LongWidth] {rs : List AclData} (hn : IntNumber a.number)
    (hrs : a.number ∉ rs.map AclData.number) :
    a.lines.foldlM accessSection.step (none, (⟨rs⟩ : CoreAccess)) =
      (readAcl a).map fun a => (none, (⟨rs ++ [a]⟩ : CoreAccess)) := by
  have hadd : CoreAccess.add a.number ⟨rs⟩ = ⟨rs ++ [⟨a.number, []⟩]⟩ := by
    rw [CoreAccess.add, look_eq_none hrs]
    rfl
  rw [AclData.lines, List.cons_append, List.foldlM_cons, step_access hn, readAcl]
  by_cases hpos : 0 ≤ a.number
  · rw [if_pos hpos, if_pos hpos, hadd]
    show (a.acl.map AclEntry.line ++ [exitLine]).foldlM accessSection.step _ = _
    rw [List.foldlM_append, run_entries hn hrs]
    cases a.acl.mapM readEntry with
    | none => rfl
    | some es =>
      simp only [Option.map_some, Option.bind_eq_bind, Option.bind_some, List.foldlM_cons]
      rw [ConfSection.step_exit rfl]
      rfl
  · rw [if_neg hpos, if_neg hpos]
    rfl

/-! ## The whole text -/

/-- Every pattern can stand in a line, and every entry has one. -/
structure CoreAccess.Tidy (c : CoreAccess) : Prop where
  sound : c.Sound
  clean : ∀ a ∈ c.acl, ∀ e ∈ a.acl, Clean e.rule.pattern

/-- All patterns of a list are clean. -/
def AclData.CleanRules (a : AclData) : Prop := ∀ e ∈ a.acl, Clean e.rule.pattern

theorem cleanRules_addRule (hp : Clean p) (ha : a.CleanRules) :
    (AclData.addRule v p a).2.CleanRules := by
  unfold AclData.addRule
  split
  · next hne =>
    intro e he
    rcases List.mem_append.mp he with he | he
    · exact ha e he
    · rw [List.mem_singleton.mp he, rule_new hne, cstr_eq_self hp.1]
      exact hp
  · exact ha

theorem mem_of_mem_delLoop {es : List AclEntry} (he : e ∈ (AclData.delLoop v p es).2) : e ∈ es := by
  induction es with
  | nil => exact he
  | cons e' es ih =>
    rw [AclData.delLoop] at he
    split at he
    · exact List.mem_cons_of_mem e' he
    · rcases List.mem_cons.mp he with rfl | he
      · exact List.mem_cons_self
      · exact List.mem_cons_of_mem e' (ih he)

theorem cleanRules_delRule (ha : a.CleanRules) : (AclData.delRule v p a).2.CleanRules := by
  unfold AclData.delRule
  split
  · intro e he
    exact ha e (mem_of_mem_delLoop he)
  · exact ha

theorem forall_mem_addRule {rule : AclData → Bool × AclData} {P : AclData → Prop}
    (hrule : ∀ a, P a → P (rule a).2) (hnew : P ⟨n, []⟩) (hc : ∀ a ∈ c.acl, P a) :
    ∀ a ∈ (c.addRule rule n).2.acl, P a := by
  unfold CoreAccess.addRule
  split
  · exact Keyed.forall_mem_alter hrule hc
  · intro a ha
    rcases List.mem_append.mp ha with ha | ha
    · exact hc a ha
    · rw [List.mem_singleton.mp ha]
      exact hrule _ hnew

/-- One command keeps the lists tidy. -/
theorem CoreAccess.Tidy.applycf [LongWidth] {cmdname : AccessCmd} {params up : List Bytes}
    (hc : c.Tidy)
    (hparams : ∀ t ∈ params, Clean t) (h : c.applycf cmdname params up = some c') : c'.Tidy := by
  obtain ⟨q, hq, h⟩ := Option.bind_eq_some_iff.mp h
  have hq := hparams q (List.mem_of_head? hq)
  have hsound : ∀ (op : AccessOp) (c' : CoreAccess) out, coreAccess.step c op = .ok (c', out) →
      c'.Sound := by
    intro op c' out hop
    obtain ⟨_, -, hstands⟩ := access_step ⟨hc.sound, rfl⟩ op hop
    exact hstands.sound
  have hnil : ∀ n, AclData.CleanRules ⟨n, []⟩ := fun n e he => absurd he List.not_mem_nil
  cases cmdname with
  | confAccessNo =>
    obtain rfl := Option.some.inj h
    refine ⟨hsound (.del (atoi q)) _ _ rfl, ?_⟩
    intro a ha
    exact hc.clean a (List.mem_of_mem_filter ha)
  | confAccessNode =>
    obtain rfl := Option.some.inj h
    refine ⟨hsound (.add (atoi q)) _ _ rfl, ?_⟩
    unfold CoreAccess.add
    split
    · exact hc.clean
    · intro a ha
      rcases List.mem_append.mp ha with ha | ha
      · exact hc.clean a ha
      · rw [List.mem_singleton.mp ha]
        exact hnil _
  | confAccessIntNoDeny =>
    obtain ⟨u, -, rfl⟩ := Option.map_eq_some_iff.mp h
    refine ⟨hsound (.delDeny (atoi u) q) _ _ rfl, ?_⟩
    exact @Keyed.forall_mem_alter _ _ _ AclData.number c.acl _ _ AclData.CleanRules
      (fun _ => cleanRules_delRule) hc.clean
  | confAccessIntNoPermit =>
    obtain ⟨u, -, rfl⟩ := Option.map_eq_some_iff.mp h
    refine ⟨hsound (.delPermit (atoi u) q) _ _ rfl, ?_⟩
    exact @Keyed.forall_mem_alter _ _ _ AclData.number c.acl _ _ AclData.CleanRules
      (fun _ => cleanRules_delRule) hc.clean
  | confAccessDeny =>
    obtain ⟨u, -, rfl⟩ := Option.map_eq_some_iff.mp h
    refine ⟨hsound (.addDeny (atoi u) q) _ _ rfl, ?_⟩
    exact @forall_mem_addRule c (atoi u) _ AclData.CleanRules
      (fun _ => cleanRules_addRule hq) (hnil _) hc.clean
  | confAccessPermit =>
    obtain ⟨u, -, rfl⟩ := Option.map_eq_some_iff.mp h
    refine ⟨hsound (.addPermit (atoi u) q) _ _ rfl, ?_⟩
    exact @forall_mem_addRule c (atoi u) _ AclData.CleanRules
      (fun _ => cleanRules_addRule hq) (hnil _) hc.clean

/-- **What is read back is tidy.** -/
theorem tidy_of_replay [LongWidth] {text : Bytes} {up : Option (List Bytes)}
    (h : accessSection.replay text ⟨[]⟩ = some (up, c)) : c.Tidy := by
  have hinit : (⟨[]⟩ : CoreAccess).Tidy := ⟨CoreAccess.sound_init, by simp⟩
  exact @ConfSection.replay_invariant _ _ _ accessSection _ c _ CoreAccess.Tidy
    (fun i params up s s' hparams _ hs h => hs.applycf hparams h) text up hinit h

theorem configText_lines (hc : c.Tidy) :
    Records.lines 10 c.configText = c.acl.flatMap AclData.lines ++ [[]] := by
  apply Records.lines_records fun a ha => buildcfstr_eq_lines (hc.sound.single a ha)
  intro a ha
  apply ten_not_mem_nodeLines (by simp [str]) (ten_not_mem_decimal a.number)
  intro l hl
  obtain ⟨e, he, rfl⟩ := List.mem_map.mp hl
  apply ten_not_mem_keyLine
  · cases e.rule.verdict <;> simp [AclVerdict.keyword, str]
  · exact (hc.clean a ha e he).2

theorem new_injective {q : Bytes} (h : AclEntry.new p v = AclEntry.new q v) : p = q := by
  cases v <;> simpa [AclEntry.new] using h

/-- An entry is read as it is exactly when its pattern is a word. -/
theorem readEntry_eq_self_iff [LongWidth] (he : e.Single) (hclean : Clean e.rule.pattern) :
    readEntry e = some e ↔ PatternOk e.rule.pattern := by
  obtain ⟨v, p, hp, -, rfl⟩ := he
  rw [rule_new hp] at hclean
  have hlen : v.keyword.length ≤ 6 := by cases v <;> simp [AclVerdict.keyword, str]
  have hread : readEntry (.new p v) = some (.new p v) ↔
      lineParam patternMask (2 + v.keyword.length + 1) p = some p := by
    rw [readEntry, rule_new hp, Option.map_eq_some_iff]
    constructor
    · rintro ⟨q, hq, heq⟩
      rw [hq, new_injective heq]
    · intro h
      exact ⟨p, h, rfl⟩
  rw [hread, rule_new hp]
  exact lineParam_plainText_iff (by omega) hclean.2

theorem readAcl_eq_self_iff [LongWidth] (ha : ∀ e ∈ a.acl, e.Single) (hclean : a.CleanRules) :
    readAcl a = some a ↔ 0 ≤ a.number ∧ ∀ e ∈ a.acl, PatternOk e.rule.pattern := by
  have hentries : a.acl.mapM readEntry = some a.acl ↔ ∀ e ∈ a.acl, PatternOk e.rule.pattern := by
    rw [Records.mapM_eq_some_self_iff]
    apply forall₂_congr
    intro e he
    exact readEntry_eq_self_iff (ha e he) (hclean e he)
  rw [readAcl, ← hentries]
  split
  · next hpos =>
    rw [and_iff_right hpos, Option.map_eq_some_iff]
    constructor
    · rintro ⟨es, hes, heq⟩
      rw [hes, ← heq]
    · intro h
      exact ⟨a.acl, h, rfl⟩
  · next hpos => simp [hpos]

/-- **Access lists in the file**: they are read back if and only if their numbers are different and
not negative, each entry has one pattern, and every pattern is a word that the mask accepts. -/
theorem accessReadsBack_iff [LongWidth] (hint : ∀ a ∈ c.acl, IntNumber a.number) :
    AccessReadsBack c ↔ c.Sound ∧ ∀ a ∈ c.acl, 0 ≤ a.number ∧
      ∀ e ∈ a.acl, PatternOk e.rule.pattern := by
  have htidy : c.Tidy → (AccessReadsBack c ↔ ∀ a ∈ c.acl, 0 ≤ a.number ∧
      ∀ e ∈ a.acl, PatternOk e.rule.pattern) := by
    intro hc
    have hone : ∀ a ∈ c.acl, ∀ rs : List AclData, a.number ∉ rs.map AclData.number →
        a.lines.foldlM accessSection.step (none, (⟨rs⟩ : CoreAccess)) =
          (readAcl a).map fun a => (none, (⟨rs ++ [a]⟩ : CoreAccess)) :=
      fun a ha rs hrs => run_lines (hint a ha) hrs
    have hkey : ∀ a ∈ c.acl, ∀ a', readAcl a = some a' → a'.number = a.number := by
      intro a _ a' h
      rw [readAcl] at h
      split at h
      · obtain ⟨es, -, rfl⟩ := Option.map_eq_some_iff.mp h
        rfl
      · contradiction
    have hback := @Records.readsBack_iff _ _ _ _ AclData.number accessSection.step
      (fun rs => (none, (⟨rs⟩ : CoreAccess))) AclData.lines readAcl c.acl hone hkey
      (fun l l' h => by simpa using h) hc.sound.distinct
    have hreplay := accessSection.replay_lines (List.cons_ne_nil _ _) (List.cons_ne_nil _ _)
      (configText_lines hc) (⟨[]⟩ : CoreAccess)
    rw [AccessReadsBack, hreplay]
    apply hback.trans
    apply forall₂_congr
    intro a ha
    exact readAcl_eq_self_iff (hc.sound.single a ha) (hc.clean a ha)
  constructor
  · intro h
    have hc := tidy_of_replay h
    exact ⟨hc.sound, (htidy hc).mp h⟩
  · rintro ⟨hsound, hall⟩
    exact (htidy ⟨hsound, fun a ha e he => ((hall a ha).2 e he).clean⟩).mpr hall

end

end Tacppd
