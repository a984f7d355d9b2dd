/-
# The lines of a node

In the node of an object most commands are a keyword with one parameter, and some are a keyword
with one of several words behind it, each a command of its own.  `ParamLine` and `ChoiceLine`
say how the program writes the two kinds and what is read of them, `ParamLine.step` and
`ChoiceLine.step` how a section takes them.

`Writes.readsBack_iff` is the round trip of a section whose objects are such nodes.
-/
import Tacppd.Abbrev
import Tacppd.DeviceReplay
import Tacppd.Lib.Nodes

namespace Tacppd

/-! ## A keyword and a parameter -/

/-- A line with a parameter: the keyword in it, and the keyword, the parameter and the command in
`etc/tacppd.cf.xml`. -/
structure ParamLine (ρ ι : Type) where
  word : Bytes
  key : Bytes
  mask : ParamMask
  cmd : ι
  value : ρ → Bytes
  set : Bytes → ρ → ρ

section

variable {ρ ι : Type}

/-- What is read of such a line. -/
def ParamLine.read [LongWidth] (f : ParamLine ρ ι) (a : ρ) : Option Bytes :=
  lineParam f.mask (2 + f.word.length + 1) (f.value a)

def ParamLine.field [LongWidth] (f : ParamLine ρ ι) : Records.Field ρ Bytes Bytes where
  line a := keyLine 2 f.word (f.value a)
  read := f.read
  set := f.set

/-- The line is one of a node, and no other command there begins with its keyword. -/
structure ParamLine.In (f : ParamLine ρ ι) (cmds : List (List MaskWord × Option ι)) : Prop where
  place : ∃ pre post, cmds = pre ++ ([.key f.key, .param f.mask], some f.cmd) :: post ∧
    (pre ++ post).all (fun c => refuses (f.word ++ [32]) c.1) = true
  keyword : Keyword f.word
  key : matchNstrict (f.word ++ [32]) f.key = true

/-! ## A keyword and a word -/

/-- A line with a second keyword: the first one, and the second ones with their commands. -/
structure ChoiceLine (ρ ι : Type) where
  word : Bytes
  key : Bytes
  alts : List (Bytes × ι)
  value : ρ → Bytes
  set : Bytes → ρ → ρ

/-- The first of the words that the second part of a line is compared with. -/
def chosen (alts : List (Bytes × ι)) : List CmdPart → Option (Bytes × ι)
  | [w] => alts.find? fun x => matchNstrict w.rest x.1
  | _ => none

/-- What is read of such a line. -/
def ChoiceLine.choice (f : ChoiceLine ρ ι) (a : ρ) : Option (Bytes × ι) :=
  chosen f.alts (splitLoop 32 none false (snprintf (299 - (2 + f.word.length + 1)) (f.value a)))

/-- `utl::lower(mask[1])`. -/
def ChoiceLine.read (f : ChoiceLine ρ ι) (a : ρ) : Option Bytes :=
  (f.choice a).map fun x => lowered x.1

def ChoiceLine.field (f : ChoiceLine ρ ι) : Records.Field ρ Bytes Bytes where
  line a := keyLine 2 f.word (f.value a)
  read := f.read
  set := f.set

/-- The commands of a line with a second keyword. -/
def ChoiceLine.cmds (f : ChoiceLine ρ ι) : List (List MaskWord × Option ι) :=
  f.alts.map fun x => ([.key f.key, .key x.1], some x.2)

/-- The line is one of a node, and no other command there begins with its keyword. -/
structure ChoiceLine.In (f : ChoiceLine ρ ι) (cmds : List (List MaskWord × Option ι)) : Prop where
  place : ∃ pre post, cmds = pre ++ (f.cmds ++ post) ∧
    (pre ++ post).all (fun c => refuses (f.word ++ [32]) c.1) = true
  keyword : Keyword f.word
  key : matchNstrict (f.word ++ [32]) f.key = true

/-- The commands of one first keyword, in a list of others. -/
theorem takeLine_choice [LongWidth] {pre post : List (List MaskWord × Option ι)} {k : Bytes}
    {alts : List (Bytes × ι)} {p : CmdPart} {ws : List CmdPart}
    (hk : matchNstrict p.rest k = true) (hrefuse : ∀ c ∈ pre ++ post, refuses p.rest c.1 = true) :
    takeLine (pre ++ (alts.map (fun x => ([MaskWord.key k, .key x.1], some x.2)) ++ post))
        (p :: ws) =
      (chosen alts ws).map fun x => some (some x.2, []) := by
  induction pre with
  | cons c pre ih =>
    rw [List.cons_append, takeLine_refused (hrefuse c List.mem_cons_self)]
    exact ih fun c' hc' => hrefuse c' (List.mem_cons_of_mem c hc')
  | nil =>
    have hpost : takeLine post (p :: ws) = none := takeLine_eq_none hrefuse
    rw [List.nil_append]
    induction alts with
    | nil =>
      rw [List.map_nil, List.nil_append, hpost]
      cases ws with
      | nil => rfl
      | cons w ws =>
        cases ws with
        | nil => rfl
        | cons w' ws => rfl
    | cons x alts ih =>
      rw [List.map_cons, List.cons_append, takeLine, makeAction, parseCommand,
        if_neg (List.cons_ne_nil p ws), parseLoop, if_pos hk]
      cases ws with
      | nil => exact ih
      | cons w ws =>
        simp only [parseLoop]
        by_cases hx : matchNstrict w.rest x.1 = true
        · cases ws with
          | nil =>
            rw [if_pos hx, chosen, List.find?_cons, hx]
            rfl
          | cons w' ws =>
            rw [if_pos hx]
            exact ih
        · have hfalse : matchNstrict w.rest x.1 = false := by simpa using hx
          rw [if_neg hx]
          cases ws with
          | nil =>
            rw [chosen, List.find?_cons, hfalse]
            exact ih
          | cons w' ws => exact ih

theorem ChoiceLine.mem_of_choice {f : ChoiceLine ρ ι} {a : ρ} {x : Bytes × ι}
    (h : f.choice a = some x) : x ∈ f.alts := by
  unfold choice chosen at h
  split at h
  · exact List.mem_of_find?_eq_some h
  · contradiction

/-! ## What is read -/

/-- **A number as it is saved.** -/
theorem lineParam_number_iff [LongWidth] {lo hi z : ℤ} (hlo : 0 ≤ lo) (hhi : hi < 2147483648)
    {n : ℕ} (hn : n ≤ 200) :
    (∃ t, lineParam (.int lo (some hi)) n (decimal z) = some t ∧ atoi t = z) ↔
      lo ≤ z ∧ z ≤ hi := by
  constructor
  · rintro ⟨t, hread, rfl⟩
    have hmask := (oneParam_eq_some_iff.mp hread).2
    simp only [isCorrespondW, Option.all_some, Option.some.injEq, Bool.and_eq_true,
      decide_eq_true_eq] at hmask
    exact ⟨hmask.1.2, hmask.2⟩
  · rintro ⟨hz, hz'⟩
    have hint : IntNumber z := by
      unfold IntNumber
      omega
    refine ⟨decimal z, ?_, atoi_toString hint⟩
    rw [lineParam_decimal hint lo (some hi) hn, if_pos]
    refine ⟨by omega, hz, ?_⟩
    rw [Option.all_some, decide_eq_true hz']

/-- **A word as it is saved**: one of the words of the commands, in small letters. -/
theorem ChoiceLine.read_iff {f : ChoiceLine ρ ι} {a : ρ}
    (hself : ∀ t ∈ f.alts.map fun x => lowered x.1, (chosen f.alts
      (splitLoop 32 none false (snprintf (299 - (2 + f.word.length + 1)) t))).map
        (fun x => lowered x.1) = some t) :
    f.read a = some (f.value a) ↔ f.value a ∈ f.alts.map fun x => lowered x.1 := by
  constructor
  · intro h
    obtain ⟨x, hx, heq⟩ := Option.map_eq_some_iff.mp h
    exact List.mem_map.mpr ⟨x, mem_of_choice hx, heq⟩
  · exact fun h => hself _ h

/-! ## Where a parameter stands -/

section

variable {delim : UInt8} {part : Option CmdPart} {esc : Bool} {s t u : Bytes} {q : CmdPart}

/-- Behind a part there is a blank or a quote, or nothing. -/
theorem splitLoop_ends (hdelim : delim ∈ ([32, 39, 34] : Bytes))
    (hpart : ∀ p ∈ part, p.rest.drop p.len = s) (hq : q ∈ splitLoop delim part esc s) :
    ∀ c ∈ (q.rest.drop q.len).head?, c ∈ ([32, 39, 34] : Bytes) := by
  induction s generalizing delim part esc with
  | nil =>
    rw [hpart q (Option.mem_toList.mp hq)]
    nofun
  | cons c s ih =>
    have hmore : ∀ p : CmdPart, p.rest.drop p.len = c :: s →
        (p.more 1).rest.drop (p.more 1).len = s := by
      intro p hp
      show p.rest.drop (p.len + 1) = s
      rw [← List.tail_drop, hp, List.tail_cons]
    have hopen : ∀ p ∈ some ((part.getD ⟨c :: s, 0⟩).more 1), p.rest.drop p.len = s := by
      intro p hp
      obtain rfl := Option.some.inj hp
      apply hmore
      cases part with
      | none => rfl
      | some p => exact hpart p rfl
    have hblank : (32 : UInt8) ∈ ([32, 39, 34] : Bytes) := by decide
    have hnone : ∀ p ∈ (none : Option CmdPart), p.rest.drop p.len = s := by simp
    unfold splitLoop at hq
    split at hq
    · refine ih hdelim (fun p hp => ?_) hq
      obtain ⟨p', hp', rfl⟩ := Option.map_eq_some_iff.mp hp
      exact hmore p' (hpart p' hp')
    · split at hq
      · exact ih hdelim hopen hq
      · split at hq
        · contradiction
        · split at hq
          · next hc =>
            cases part with
            | none => exact ih hdelim hnone hq
            | some p =>
              rcases List.mem_cons.mp hq with rfl | hq
              · rw [hpart q rfl]
                intro c' hc'
                rwa [← Option.some.inj hc', hc]
              · exact ih hblank hnone hq
          · split at hq
            · next hquote =>
              cases part with
              | none =>
                refine ih ?_ (fun p hp => ?_) hq
                · rcases hquote with rfl | rfl | rfl <;> simp
                · rw [← Option.some.inj hp]
                  rfl
              | some p => exact ih hdelim hopen hq
            · exact ih hdelim hopen hq

/-- **Where a parameter stands** in the text that it is read from. -/
theorem exists_of_lineParam [LongWidth] {m : ParamMask} {n : ℕ} (h0 : (0 : UInt8) ∉ t)
    (hlen : t.length + n ≤ 298) (h : lineParam m n t = some u) :
    ∃ pre post, t = pre ++ (u ++ post) ∧ ∀ c ∈ post.head?, c ∈ ([32, 39, 34] : Bytes) := by
  obtain ⟨hwords, -⟩ := oneParam_eq_some_iff.mp h
  rw [snprintf_eq_self h0 (by omega)] at hwords
  obtain ⟨q, hq, rfl⟩ : ∃ q ∈ splitLoop 32 none false t, q.text = u := by
    rw [← List.mem_map, hwords]
    exact List.mem_singleton_self u
  have hends := @splitLoop_ends 32 none false _ q (by decide) nofun hq
  rcases of_mem_splitLoop hq with ⟨_, _, hnone, _⟩ | ⟨⟨pre, hpre⟩, _⟩
  · contradiction
  · refine ⟨pre, q.rest.drop q.len, ?_, hends⟩
    rw [CmdPart.text, List.take_append_drop, hpre]

end

/-! ## The steps -/

variable {σ : Type} [DecidableEq ι]

variable {S : ConfSection σ ι} {up : List Bytes} {s : σ}

/-- **A line with a parameter**. -/
theorem ParamLine.step_bind [LongWidth] {f : ParamLine ρ ι} (hf : f.In S.inner)
    (hne : f.cmd ≠ S.node) (a : ρ) :
    S.step (some up, s) (f.field.line a) = (f.read a).bind fun p =>
      (S.applycf f.cmd [p] up s).map fun s => (some up, s) := by
  obtain ⟨pre, post, hS, hrefuse⟩ := hf.place
  exact ConfSection.step_inner hS hne hf.keyword hf.key hrefuse (f.value a)

/-- **A line with a parameter**, and what its command does. -/
theorem ParamLine.step [LongWidth] {f : ParamLine ρ ι} (hf : f.In S.inner) (hne : f.cmd ≠ S.node)
    (a : ρ)
    {g : Bytes → σ} (happly : ∀ p, (0 : UInt8) ∉ p → S.applycf f.cmd [p] up s = some (g p)) :
    S.step (some up, s) (f.field.line a) = (f.field.read a).map fun p => (some up, g p) := by
  rw [ParamLine.step_bind hf hne a]
  show _ = (f.read a).map _
  cases hread : f.read a with
  | none => rfl
  | some p =>
    rw [Option.bind_some, happly p (of_lineParam hread).1]
    rfl

/-- **A line with a second keyword**, and what its command does. -/
theorem ChoiceLine.step [LongWidth] {f : ChoiceLine ρ ι} (hf : f.In S.inner)
    (hne : ∀ x ∈ f.alts, x.2 ≠ S.node) (a : ρ) {g : Bytes → σ}
    (happly : ∀ x ∈ f.alts, S.applycf x.2 [] up s = some (g (lowered x.1))) :
    S.step (some up, s) (f.field.line a) = (f.field.read a).map fun p => (some up, g p) := by
  obtain ⟨pre, post, hS, hrefuse⟩ := hf.place
  have htake : takeLine S.inner (split (f.field.line a)) =
      (f.choice a).map fun x => some (some x.2, []) := by
    show takeLine S.inner (split (keyLine 2 f.word (f.value a))) = _
    rw [split_keyLine hf.keyword (Nat.le_refl 2), hS]
    apply takeLine_choice
    · rw [matchNstrict_blank]
      exact hf.key
    · intro c hc
      rw [refuses_blank]
      exact List.all_eq_true.mp hrefuse c hc
  rw [ConfSection.step]
  simp only [Option.isNone_some, Bool.false_eq_true, if_false, htake]
  show _ = (f.read a).map _
  unfold read
  cases hchoice : f.choice a with
  | none => rfl
  | some x =>
    have hx := mem_of_choice hchoice
    simp [hne x hx, happly x hx]

end

/-! ## Sections of nodes -/

/-- Objects that are nodes of a section, with the texts that the program writes for them; `mode` is
the parameter that a node keeps, `OneLine` says that an object has no newline in its texts, and
`good` what the states keep. -/
structure ConfSection.Writes [LongWidth] {ρ κ υ σ ι : Type} [DecidableEq ι] (S : ConfSection σ ι)
    (N : Records.Node ρ κ Bytes υ Bytes) (mode : υ → List Bytes) (rows : σ → List ρ)
    (good : σ → Prop) (text : ρ → Bytes) (OneLine : ρ → Prop) : Prop where
  reader : N.Reader OneLine good mode S.step rows
  text : ∀ a, text a ++ [10] = (N.write a).flatMap (· ++ [10])
  lines : ∀ a, OneLine a → ∀ l ∈ N.write a, (10 : UInt8) ∉ l
  keeps : ∀ i params up s s', (∀ t ∈ params, Clean t) → (∀ t ∈ up, Clean t) →
    (∀ a ∈ rows s, OneLine a) → S.applycf i params up s = some s' → ∀ a ∈ rows s', OneLine a
  config : S.config ≠ []
  inner : S.inner ≠ []

section

variable {ρ κ υ σ ι : Type} [DecidableEq ι] {S : ConfSection σ ι}
  {N : Records.Node ρ κ Bytes υ Bytes} {mode : υ → List Bytes} {rows : σ → List ρ} {good : σ → Prop}
  {text : ρ → Bytes} {OneLine Storable : ρ → Prop}

/-- **The saved text of a section**: its objects are read back if and only if no parameter comes
twice and the text can hold each of them. -/
theorem ConfSection.Writes.readsBack_iff [LongWidth] (h : S.Writes N mode rows good text OneLine)
    (hstorable : ∀ a, OneLine a → (N.read a = some a ↔ Storable a))
    (hone : ∀ a, Storable a → OneLine a) {s : σ} (hgood : good s) (hs : rows s = [])
    (l : List ρ) :
    (∃ s', S.replay (l.flatMap fun a => text a ++ [10]) s = some (none, s') ∧ rows s' = l) ↔
      (l.map N.key).Nodup ∧ ∀ a ∈ l, Storable a := by
  have hback : (∀ a ∈ l, OneLine a) →
      ((∃ s', S.replay (l.flatMap fun a => text a ++ [10]) s = some (none, s') ∧ rows s' = l) ↔
        (l.map N.key).Nodup ∧ ∀ a ∈ l, Storable a) := by
    intro hl
    have hlines : Records.lines 10 (l.flatMap fun a => text a ++ [10]) =
        l.flatMap N.write ++ [[]] :=
      Records.lines_records (fun a _ => h.text a) fun a ha => h.lines a (hl a ha)
    rw [S.replay_lines h.config h.inner hlines, h.reader.readsBack_iff hl hgood hs]
    apply and_congr_right
    intro _
    exact forall₂_congr fun a ha => hstorable a (hl a ha)
  constructor
  · rintro ⟨s', hreplay, rfl⟩
    refine (hback ?_).mp ⟨s', hreplay, rfl⟩
    exact @ConfSection.replay_invariant _ _ _ S s s' _ (fun s => ∀ a ∈ rows s, OneLine a) h.keeps _
      none (by simp [hs]) hreplay
  · intro hall
    exact (hback fun a ha => hone a (hall.2 a ha)).mpr hall

end

end Tacppd
