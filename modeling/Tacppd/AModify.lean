/-
# Dynamic authorization pairs

`AModify.cc`: an authorization AVP whose value starts with `INT:`, `SQL:` or `EXT:` is
evaluated when the record of a user is handed out.  The rest of the value is a command, the
variables in it are set, and what the command gives becomes the value.

`modifyer` goes through the list by index.  `avp_set` takes the pair at the index out and puts
the new one at the end, and the index is set to 0 before the `for` adds one to it: from then
on the first pair of the list is not looked at.  Two dynamic pairs in front are enough for
one of them to be missed (`Tacppd.AModifyList`).

The modifyers themselves (the address pools, the database, a program) are functions of their
command here.
-/
import Tacppd.Database
import Tacppd.Lib.Restart
import Mathlib.Data.List.Perm.Basic
import Mathlib.Tactic.Common

namespace Tacppd

/-! ## Parts of a pair -/

/-- `utl::getAvpName(av)`: what stands before the `=`, if that is in the first 201 bytes.  A
name of 200 bytes fills its buffer, and no NUL ends it. -/
def getAvpName (av : Bytes) : Option Bytes :=
  let i := min (av.takeWhile (· ≠ 61)).length 200
  if av[i]? ≠ some 61 then some []
  else if i < 200 then some (av.take i) else none

/-- `utl::getAvpValue(av)`: what stands behind the first `=`, in a buffer of 300 bytes. -/
def getAvpValue (av : Bytes) : Option Bytes := terminated 300 (av.dropWhile (· ≠ 61)).tail

/-- `utl::getAvpMod(av)`: what stands behind the first `:`, in a buffer of 300 bytes. -/
def getAvpMod (av : Bytes) : Option Bytes := terminated 300 (av.dropWhile (· ≠ 58)).tail

/-! ## Variables -/

/-- The classes under `AModifyers`. -/
inductive AModifyers
  | int
  | sql
  | ext
  deriving DecidableEq, Repr

/-- The internal name in front of a value. -/
def AModifyers.tag : AModifyers → Bytes
  | int => str "INT:"
  | sql => str "SQL:"
  | ext => str "EXT:"

/-- Class `AModify`, with what it finds in the server. -/
structure AModify where
  name : Bytes
  /-- `nas.get()`. -/
  nas : Bytes
  port : Bytes
  phone : Bytes
  /-- `::MAINDIR`. -/
  maindir : Bytes
  /-- `am->modifyer(s)`. -/
  evaluate : AModifyers → Bytes → Bytes
  /-- The bytes that `setvars` finds in its array `c` before it writes to it. -/
  stack : Bytes
  stack_length : stack.length = 300

/-- A stack without traces of other functions. -/
theorem length_zeros : (List.replicate 300 (0 : UInt8)).length = 300 := List.length_replicate

/-- One variable: `rest` is the array from the index on, `out` what `str` has so far.  `none`
when `strlen` finds no NUL, or `str` overflows. -/
def setvar (var value rest out : Bytes) : Option (Bytes × Bytes) :=
  if 0 ∉ rest then none
  else if scompNum (cstr rest) var var.length then
    if (out ++ cstr value).length ≤ 250 then some (rest.drop var.length, out ++ cstr value)
    else none
  else some (rest, out)

namespace AModify

variable (m : AModify)

/-- The four checks at a `$`, each where the one before it has left the index. -/
def setvarsAt (rest out : Bytes) : Option (Bytes × Bytes) := do
  let (rest, out) ← setvar (str "$name") m.name rest out
  let (rest, out) ← setvar (str "$nas") m.nas rest out
  let (rest, out) ← setvar (str "$port") m.port rest out
  setvar (str "$phone") m.phone rest out

/-- The loop of `setvars`; each round takes at least one byte of the array. -/
def setvarsLoop : ℕ → Bytes → Bytes → Option Bytes
  | 0, _, _ => none
  | rounds + 1, rest, out =>
    match rest with
    | [] => none  -- behind the array
    | x :: _ =>
      if x = 0 ∨ 250 ≤ out.length then some out
      else
        -- the byte behind a variable is copied, also when it is the NUL
        match if x = 36 then m.setvarsAt rest out else some (rest, out) with
        | none => none
        | some ([], _) => none
        | some (y :: rest, out) =>
          if out.length < 250 then setvarsLoop rounds rest (out ++ [y]) else none

/-- `setvars(sc)`. -/
def setvars (sc : Bytes) : Option Bytes :=
  let sc := snprintf 299 sc
  match m.setvarsLoop 301 (sc ++ 0 :: m.stack.drop (sc.length + 1)) [] with
  | none => none
  | some out => if 0 ∈ out then some (cstr out) else terminated 250 out

variable {m}

theorem setvarsLoop_plain {s junk out : Bytes} {rounds : ℕ} (h0 : 0 ∉ s) (hvar : 36 ∉ s)
    (hout : out.length + s.length < 250) (hrounds : s.length < rounds) :
    m.setvarsLoop rounds (s ++ 0 :: junk) out = some (out ++ s) := by
  induction s generalizing out rounds with
  | nil =>
    obtain ⟨rounds, rfl⟩ := Nat.exists_eq_succ_of_ne_zero hrounds.ne'
    simp [setvarsLoop]
  | cons x s ih =>
    obtain ⟨rounds, rfl⟩ := Nat.exists_eq_succ_of_ne_zero (Nat.ne_zero_of_lt hrounds)
    rw [List.length_cons] at hout hrounds
    have hx0 : x ≠ 0 := fun h => h0 (h ▸ List.mem_cons_self ..)
    have hx : x ≠ 36 := fun h => hvar (h ▸ List.mem_cons_self ..)
    rw [List.cons_append, setvarsLoop,
      if_neg (not_or.mpr ⟨hx0, Nat.not_le.mpr (by omega)⟩), if_neg hx]
    simp only
    rw [if_pos (by omega), ih (fun h => h0 (List.mem_cons_of_mem x h))
      (fun h => hvar (List.mem_cons_of_mem x h)) (by simp; omega) (by omega)]
    simp

/-- A command without variables that is shorter than its buffer is evaluated as it is. -/
theorem setvars_eq_self {sc : Bytes} (h0 : 0 ∉ sc) (hvar : 36 ∉ sc) (hlen : sc.length < 250) :
    m.setvars sc = some sc := by
  have hloop := @setvarsLoop_plain m sc (m.stack.drop (sc.length + 1)) [] 301 h0 hvar
    (by simpa using hlen) (by omega)
  rw [setvars, snprintf_eq_self h0 (by omega)]
  simp only [hloop, List.nil_append]
  rw [if_neg h0, terminated_eq_some_iff]
  exact ⟨hlen, rfl⟩

variable (m)

/-! ## The loop -/

/-- The modifyer for a value.  No value has two of the names, so the last check stands first. -/
def chosen (value : Bytes) : Option AModifyers :=
  if scompNum value (str "EXT:") 4 then some .ext
  else if scompNum value (str "SQL:") 4 then some .sql
  else if scompNum value (str "INT:") 4 then some .int
  else none

/-- The result of a command. -/
def result (am : AModifyers) (value : Bytes) : Option Bytes := do
  let mod ← getAvpMod value
  let command := if am = .ext then m.maindir ++ str "/ext/" ++ mod else mod
  let newCommand ← m.setvars command
  return m.evaluate am (snprintf 250 newCommand)

/-- The body of the loop for one pair. -/
def look (avp : UserAvp) : Restart.Look UserAvp :=
  match getAvpName (cstr avp.avp), getAvpValue (cstr avp.avp) with
  | some attr, some value =>
    match chosen value with
    | none => .leave
    | some am =>
      match m.result am value with
      | none => .stop
      | some res => .take { avp with avp := attr ++ 61 :: res }
  | _, _ => .stop

end AModify

/-- `avp_set(s, a)`: the pair at `s` is erased and the new one goes to the end. -/
def avpSet (avp : List UserAvp) (s : ℕ) (a : UserAvp) : List UserAvp := avp.eraseIdx s ++ [a]

/-- `AModify::modifyer(ax)`, with the pairs that it has evaluated.  `none` when it does not
end in as many rounds, or leaves a buffer. -/
def AModify.modifyer (m : AModify) (rounds : ℕ) (ax : DbUser) : Option (DbUser × List UserAvp) :=
  (Restart.loop m.look avpSet rounds 0 ax.avp []).map fun d => ({ ax with avp := d.1 }, d.2)

/-! ## Names and values -/

/-- The name of a pair: what stands before the first `=`. -/
def UserAvp.attr (a : UserAvp) : Bytes := (cstr a.avp).takeWhile (· ≠ 61)

/-- Its value: what stands behind it. -/
def UserAvp.value (a : UserAvp) : Bytes := ((cstr a.avp).dropWhile (· ≠ 61)).tail

/-- The value starts with one of the internal names. -/
def UserAvp.Dynamic (a : UserAvp) : Prop := ∃ am : AModifyers, am.tag <+: a.value

/-- The three names differ, so the order of the checks does not matter. -/
theorem AModify.chosen_eq_some_iff {v : Bytes} {am : AModifyers} :
    chosen v = some am ↔ am.tag <+: v := by
  have hsame : ∀ am am' : AModifyers, am.tag <+: v → am'.tag <+: v → am = am' := by
    intro am am' h h'
    have hlen : ∀ am : AModifyers, am.tag.length = 4 := by
      intro am
      cases am <;> rfl
    have htag : am.tag = am'.tag := by
      rw [List.prefix_iff_eq_take.mp h, List.prefix_iff_eq_take.mp h', hlen, hlen]
    revert htag
    cases am <;> cases am' <;> decide
  have hcheck : ∀ am : AModifyers, scompNum v am.tag 4 = true ↔ am.tag <+: v := by
    intro am
    cases am <;> exact scompNum_iff
  have hext : scompNum v (str "EXT:") 4 = true ↔ AModifyers.ext.tag <+: v := hcheck .ext
  have hsql : scompNum v (str "SQL:") 4 = true ↔ AModifyers.sql.tag <+: v := hcheck .sql
  have hint : scompNum v (str "INT:") 4 = true ↔ AModifyers.int.tag <+: v := hcheck .int
  constructor
  · intro h
    rw [chosen] at h
    split at h
    · next hc => exact Option.some.inj h ▸ hext.mp hc
    · split at h
      · next hc => exact Option.some.inj h ▸ hsql.mp hc
      · split at h
        · next hc => exact Option.some.inj h ▸ hint.mp hc
        · contradiction
  · intro h
    rw [chosen]
    split
    · next hc => rw [hsame _ _ (hext.mp hc) h]
    · next he =>
      split
      · next hc => rw [hsame _ _ (hsql.mp hc) h]
      · next hs =>
        split
        · next hc => rw [hsame _ _ (hint.mp hc) h]
        · next hi =>
          cases am
          · exact absurd (hint.mpr h) hi
          · exact absurd (hsql.mpr h) hs
          · exact absurd (hext.mpr h) he

theorem AModify.chosen_eq_none_iff {a : UserAvp} : chosen a.value = none ↔ ¬ a.Dynamic := by
  rw [UserAvp.Dynamic, Option.eq_none_iff_forall_ne_some]
  simp only [ne_eq, chosen_eq_some_iff, not_exists]

/-! ## The buffers -/

section Buffers

variable {s : Bytes}

theorem getElem?_takeWhile (h : 61 ∈ s) :
    s[(s.takeWhile (· ≠ (61 : UInt8))).length]? = some 61 := by
  induction s with
  | nil => contradiction
  | cons x s ih =>
    by_cases hx : x = 61
    · simp [hx]
    · rw [List.takeWhile_cons_of_pos (by simpa using hx), List.length_cons,
        List.getElem?_cons_succ]
      exact ih ((List.mem_cons.mp h).resolve_left (Ne.symm hx))

theorem getElem?_ne_of_lt {i : ℕ} (h : i < (s.takeWhile (· ≠ (61 : UInt8))).length) :
    s[i]? ≠ some 61 := by
  have hpre : s.takeWhile (· ≠ (61 : UInt8)) <+: s := List.takeWhile_prefix _
  rw [List.getElem?_eq_getElem (h.trans_le hpre.length_le), ← hpre.getElem h]
  have hne : (s.takeWhile (· ≠ (61 : UInt8)))[i] ≠ 61 := by
    simpa using List.mem_takeWhile_imp (List.getElem_mem h)
  exact fun hi => hne (Option.some.inj hi)

/-- A name that fits its buffer with a NUL. -/
theorem getAvpName_short (h : 61 ∈ s) (hlen : (s.takeWhile (· ≠ 61)).length < 200) :
    getAvpName s = some (s.takeWhile (· ≠ 61)) := by
  have hget := getElem?_takeWhile h
  rw [getAvpName]
  simp only [Nat.min_eq_left hlen.le]
  rw [if_neg (not_not_intro hget), if_pos hlen]
  have hpre : s.takeWhile (· ≠ (61 : UInt8)) <+: s := List.takeWhile_prefix _
  rw [← List.prefix_iff_eq_take.mp hpre]

/-- A name that fills its buffer. -/
theorem getAvpName_full (h : 61 ∈ s) (hlen : (s.takeWhile (· ≠ 61)).length = 200) :
    getAvpName s = none := by
  have hget := getElem?_takeWhile h
  rw [hlen] at hget
  rw [getAvpName]
  simp only [hlen, Nat.min_self]
  rw [if_neg (not_not_intro hget), if_neg (Nat.lt_irrefl 200)]

/-- A longer name, or none. -/
theorem getAvpName_long (h : 61 ∈ s → 200 < (s.takeWhile (· ≠ 61)).length) :
    getAvpName s = some [] := by
  rw [getAvpName]
  refine if_pos ?_
  by_cases hmem : 61 ∈ s
  · rw [Nat.min_eq_right (h hmem).le]
    exact getElem?_ne_of_lt (h hmem)
  · intro hi
    exact hmem (List.mem_of_getElem? hi)

end Buffers

/-- The name and the value of a pair are read without leaving their buffers. -/
structure UserAvp.Readable (a : UserAvp) : Prop where
  name : ¬ (61 ∈ cstr a.avp ∧ a.attr.length = 200)
  value : a.value.length < 300

namespace UserAvp

variable {a : UserAvp}

theorem Dynamic.mem (h : a.Dynamic) : 61 ∈ cstr a.avp := by
  obtain ⟨am, ham⟩ := h
  by_contra hmem
  have hdrop : (cstr a.avp).dropWhile (· ≠ 61) = [] := by
    rw [List.dropWhile_eq_nil_iff]
    intro x hx
    exact decide_eq_true fun hx' => hmem (hx' ▸ hx)
  rw [value, hdrop, List.tail_nil, List.prefix_nil] at ham
  revert ham
  cases am <;> decide

theorem getAvpValue_eq_some_iff {v : Bytes} :
    getAvpValue (cstr a.avp) = some v ↔ a.value.length < 300 ∧ a.value = v :=
  terminated_eq_some_iff

/-- What `getAvpName` makes of the name of a pair that is to be evaluated. -/
def readName (a : UserAvp) : Bytes := if a.attr.length < 200 then a.attr else []

theorem getAvpName_eq (h : a.Readable) (hdyn : a.Dynamic) :
    getAvpName (cstr a.avp) = some a.readName := by
  have hne : a.attr.length ≠ 200 := fun hlen => h.name ⟨hdyn.mem, hlen⟩
  rw [readName]
  split
  · next hlen => exact getAvpName_short hdyn.mem hlen
  · next hlen => exact getAvpName_long fun _ => by rw [attr] at hlen hne; omega

theorem isSome_getAvpName_iff :
    (getAvpName (cstr a.avp)).isSome = true ↔ ¬ (61 ∈ cstr a.avp ∧ a.attr.length = 200) := by
  constructor
  · rintro h ⟨hmem, hlen⟩
    rw [getAvpName_full hmem hlen] at h
    contradiction
  · intro h
    by_cases hmem : 61 ∈ cstr a.avp
    · rcases Nat.lt_trichotomy a.attr.length 200 with hlt | heq | hgt
      · rw [getAvpName_short hmem hlt]
        rfl
      · exact absurd ⟨hmem, heq⟩ h
      · rw [getAvpName_long fun _ => hgt]
        rfl
    · rw [getAvpName_long fun h' => absurd h' hmem]
      rfl

end UserAvp

/-! ## One pair -/

namespace AModify

variable (m : AModify) {a : UserAvp}

/-- The command of a pair can be evaluated. -/
def Result (a : UserAvp) (res : Bytes) : Prop :=
  ∃ am : AModifyers, am.tag <+: a.value ∧ m.result am a.value = some res

/-- The pair after its evaluation, as the loop makes it. -/
def made (a : UserAvp) (res : Bytes) : UserAvp := { a with avp := a.readName ++ 61 :: res }

variable {m}

/-- **What the body of the loop does with a pair.** -/
theorem look_cases (m : AModify) (a : UserAvp) :
    (m.look a = .stop ∧ ¬ (a.Readable ∧ (a.Dynamic → ∃ res, m.Result a res))) ∨
    (m.look a = .leave ∧ a.Readable ∧ ¬ a.Dynamic) ∨
      ∃ res, m.look a = .take (made a res) ∧ a.Readable ∧ a.Dynamic ∧ m.Result a res := by
  by_cases hread : a.Readable
  · obtain ⟨attr, hattr⟩ := Option.isSome_iff_exists.mp
      (UserAvp.isSome_getAvpName_iff.mpr hread.name)
    have hvalue := UserAvp.getAvpValue_eq_some_iff.mpr ⟨hread.value, rfl⟩
    cases hchosen : chosen a.value with
    | none =>
      refine .inr (.inl ⟨?_, hread, chosen_eq_none_iff.mp hchosen⟩)
      simp only [look, hattr, hvalue, hchosen]
    | some am =>
      have ham := chosen_eq_some_iff.mp hchosen
      have hdyn : a.Dynamic := ⟨am, ham⟩
      cases hres : m.result am a.value with
      | none =>
        refine .inl ⟨by simp only [look, hattr, hvalue, hchosen, hres], ?_⟩
        rintro ⟨_, hresult⟩
        obtain ⟨res, am', ham', hres'⟩ := hresult hdyn
        rw [← chosen_eq_some_iff, hchosen] at ham'
        rw [← Option.some.inj ham', hres] at hres'
        contradiction
      | some res =>
        refine .inr (.inr ⟨res, ?_, hread, hdyn, am, ham, hres⟩)
        rw [UserAvp.getAvpName_eq hread hdyn] at hattr
        simp only [look, UserAvp.getAvpName_eq hread hdyn, hvalue, hchosen, hres, made]
  · refine .inl ⟨?_, fun h => hread h.1⟩
    rw [look]
    cases hname : getAvpName (cstr a.avp) with
    | none => rfl
    | some attr =>
      have hvalue : getAvpValue (cstr a.avp) = none := by
        rw [Option.eq_none_iff_forall_ne_some]
        intro v hv
        exact hread ⟨UserAvp.isSome_getAvpName_iff.mp (by rw [hname]; rfl),
          (UserAvp.getAvpValue_eq_some_iff.mp hv).1⟩
      rw [hvalue]

end AModify

/-! ## The pair that is made -/

namespace AModify

variable {m : AModify} {a : UserAvp} {res : Bytes}

theorem zero_not_mem_readName (a : UserAvp) : (0 : UInt8) ∉ a.readName := by
  rw [UserAvp.readName]
  split
  · intro h
    exact zero_not_mem_cstr a.avp ((List.takeWhile_prefix _).subset h)
  · exact List.not_mem_nil

theorem not_mem_readName (a : UserAvp) : (61 : UInt8) ∉ a.readName := by
  rw [UserAvp.readName]
  split
  · intro h
    simpa using List.mem_takeWhile_imp h
  · exact List.not_mem_nil

theorem length_readName_lt (a : UserAvp) : a.readName.length < 200 := by
  rw [UserAvp.readName]
  split
  · next h => exact h
  · exact Nat.zero_lt_succ _

theorem cstr_made (a : UserAvp) (res : Bytes) :
    cstr (made a res).avp = a.readName ++ 61 :: cstr res := by
  rw [made, cstr_append (zero_not_mem_readName a), cstr, List.takeWhile_cons_of_pos (by decide),
    cstr]

theorem attr_made (a : UserAvp) (res : Bytes) : (made a res).attr = a.readName := by
  rw [UserAvp.attr, cstr_made, takeWhile_until (not_mem_readName a)]

theorem value_made (a : UserAvp) (res : Bytes) : (made a res).value = cstr res := by
  rw [UserAvp.value, cstr_made, dropWhile_until (not_mem_readName a), List.tail_cons]

/-- No result of a modifyer starts with one of the internal names. -/
def Plain (m : AModify) : Prop :=
  ∀ (am : AModifyers) (command : Bytes) (am' : AModifyers), ¬ am'.tag <+: m.evaluate am command

theorem Result.unique {res' : Bytes} (h : m.Result a res) (h' : m.Result a res') : res = res' := by
  obtain ⟨am, ham, hres⟩ := h
  obtain ⟨am', ham', hres'⟩ := h'
  rw [← chosen_eq_some_iff] at ham ham'
  obtain rfl : am = am' := Option.some.inj (ham.symm.trans ham')
  exact Option.some.inj (hres.symm.trans hres')

theorem Result.dynamic (h : m.Result a res) : a.Dynamic := by
  obtain ⟨am, ham, _⟩ := h
  exact ⟨am, ham⟩

theorem Result.evaluate (h : m.Result a res) : ∃ am command, res = m.evaluate am command := by
  obtain ⟨am, _, hres⟩ := h
  simp only [result, Option.bind_eq_bind, Option.bind_eq_some_iff, Option.pure_def,
    Option.some.injEq] at hres
  obtain ⟨_, _, _, _, rfl⟩ := hres
  exact ⟨am, _, rfl⟩

/-- The new pair is not evaluated again. -/
theorem not_dynamic_made (hplain : m.Plain) (h : m.Result a res) : ¬ (made a res).Dynamic := by
  rintro ⟨am, ham⟩
  obtain ⟨am', command, rfl⟩ := h.evaluate
  rw [value_made] at ham
  exact hplain am' command am (ham.trans (List.takeWhile_prefix _))

/-- It is passed when its value fits the buffer. -/
theorem look_made (hplain : m.Plain) (h : m.Result a res) :
    m.look (made a res) = .leave ↔ (cstr res).length < 300 := by
  have hnot := not_dynamic_made hplain h
  rcases look_cases m (made a res) with ⟨hlook, hbad⟩ | ⟨hlook, hread, _⟩ | ⟨_, _, _, hdyn, _⟩
  · rw [hlook]
    refine ⟨fun h => by contradiction, fun hlen => absurd ⟨⟨?_, ?_⟩, ?_⟩ hbad⟩
    · rintro ⟨_, hname⟩
      rw [attr_made] at hname
      exact (length_readName_lt a).ne hname
    · rwa [value_made]
    · exact fun hdyn => absurd hdyn hnot
  · rw [hlook]
    have hvalue := hread.value
    rw [value_made] at hvalue
    exact ⟨fun _ => hvalue, fun _ => rfl⟩
  · exact absurd hdyn hnot

end AModify

end Tacppd
