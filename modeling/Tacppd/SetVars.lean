/-
# Variables in a command

What `AModify::setvars` makes of a command text.  The four variables are looked for one after
the other at a `$`, each where the one before it has left the index, and then the byte at the
index is copied whatever it is.  A variable that stands directly behind another one is replaced
only when it is later in this order; at the end of the text the NUL is copied, and the loop goes
on with what the array held before.  The length of `str` is checked once in a round, before the
values are written.

So the text alone decides whether all values are put in that fit (`setvars_iff`), and the
lengths of the values decide whether the loop stays inside its arrays.
-/
import Mathlib.Data.List.Chain
import Tacppd.AModify

namespace Tacppd

/-! ## Pieces of a text -/

/-- The variables, in the order in which they are looked for. -/
inductive Variable
  | name
  | nas
  | port
  | phone
  deriving DecidableEq, Repr

namespace Variable

def rank : Variable → ℕ
  | name => 0
  | nas => 1
  | port => 2
  | phone => 3

/-- What stands behind the `$`. -/
def letters : Variable → Bytes
  | name => str "name"
  | nas => str "nas"
  | port => str "port"
  | phone => str "phone"

def text (v : Variable) : Bytes := 36 :: v.letters

def all : List Variable := [name, nas, port, phone]

end Variable

/-- The value that is put in. -/
def AModify.value (m : AModify) : Variable → Bytes
  | .name => cstr m.name
  | .nas => cstr m.nas
  | .port => cstr m.port
  | .phone => cstr m.phone

/-- A variable, or one byte. -/
inductive Piece
  | byte (x : UInt8)
  | var (v : Variable)
  deriving DecidableEq, Repr

def Piece.text : Piece → Bytes
  | byte x => [x]
  | var v => v.text

/-- The variable at the start of a text. -/
def variableAt (s : Bytes) : Option Variable := Variable.all.find? fun v => v.text.isPrefixOf s

/-- The pieces of a text behind a number of bytes that belong to a variable. -/
def piecesFrom : ℕ → Bytes → List Piece
  | _, [] => []
  | skip + 1, _ :: s => piecesFrom skip s
  | 0, x :: s =>
    match variableAt (x :: s) with
    | some v => .var v :: piecesFrom v.letters.length s
    | none => .byte x :: piecesFrom 0 s

/-- All occurrences of the variables in a text, and the bytes between them. -/
def pieces (s : Bytes) : List Piece := piecesFrom 0 s

/-- The text of pieces. -/
def piecesText (ps : List Piece) : Bytes := ps.flatMap Piece.text

/-- A piece with the value of a variable for it. -/
def Piece.put (value : Variable → Bytes) : Piece → Bytes
  | byte x => [x]
  | var v => value v

/-- Every occurrence of a variable replaced by its value. -/
def replaced (value : Variable → Bytes) (s : Bytes) : Bytes := (pieces s).flatMap (Piece.put value)

/-- Text behind which no variable starts that is taken for a byte. -/
def Canonical : List Piece → Prop
  | [] => True
  | .byte x :: ps => (∀ v : Variable, ¬ v.text <+: x :: piecesText ps) ∧ Canonical ps
  | .var _ :: ps => Canonical ps

theorem Variable.mem_all (v : Variable) : v ∈ Variable.all := by
  cases v <;> decide

theorem variableAt_isPrefix {s : Bytes} {v : Variable} (h : variableAt s = some v) :
    v.text <+: s := by
  unfold variableAt at h
  have hfound : v.text.isPrefixOf s = true := @List.find?_some _ _ v _ h
  exact List.isPrefixOf_iff_prefix.mp hfound

theorem variableAt_eq_none {s : Bytes} (h : variableAt s = none) (v : Variable) :
    ¬ v.text <+: s := by
  unfold variableAt at h
  intro hpre
  exact List.find?_eq_none.mp h v v.mem_all (List.isPrefixOf_iff_prefix.mpr hpre)

theorem piecesText_piecesFrom (skip : ℕ) (s : Bytes) :
    piecesText (piecesFrom skip s) = s.drop skip := by
  induction s generalizing skip with
  | nil => simp [piecesFrom, piecesText]
  | cons x s ih =>
    cases skip with
    | succ skip =>
      rw [piecesFrom, ih]
      rfl
    | zero =>
      rw [piecesFrom]
      split
      · next v hv =>
        obtain ⟨more, hmore⟩ := variableAt_isPrefix hv
        obtain ⟨rfl, hrest⟩ := List.cons.inj hmore
        have hs : s = v.letters ++ more := hrest.symm
        show v.text ++ piecesText (piecesFrom v.letters.length s) = _
        rw [ih, hs, List.drop_left]
        rfl
      · show [x] ++ piecesText (piecesFrom 0 s) = _
        rw [ih]
        rfl

/-- The pieces of a text are the text. -/
theorem piecesText_pieces (s : Bytes) : piecesText (pieces s) = s := piecesText_piecesFrom 0 s

theorem canonical_piecesFrom (skip : ℕ) (s : Bytes) : Canonical (piecesFrom skip s) := by
  induction s generalizing skip with
  | nil => cases skip <;> trivial
  | cons x s ih =>
    cases skip with
    | succ skip =>
      rw [piecesFrom]
      exact ih skip
    | zero =>
      rw [piecesFrom]
      split
      · exact ih _
      · next hv =>
        refine ⟨fun v => ?_, ih 0⟩
        rw [piecesText_piecesFrom]
        exact variableAt_eq_none hv v

/-! ## What the loop makes of the pieces -/

/-- Behind a variable only the later ones are looked for. -/
def Takes (last : Option Variable) (v : Variable) : Prop := ∀ u ∈ last, u.rank < v.rank

instance (last : Option Variable) (v : Variable) : Decidable (Takes last v) := by
  unfold Takes
  infer_instance

section

variable (value : Variable → Bytes)

/-- The text with the values that the loop puts in, `last` directly in front of it. -/
def left : Option Variable → List Piece → Bytes
  | _, [] => []
  | _, .byte x :: ps => x :: left none ps
  | last, .var v :: ps =>
    if Takes last v then value v ++ left (some v) ps else v.text ++ left none ps

/-- With `k` bytes in `str`, the loop stays inside its arrays: no byte behind a variable is
written when `str` is full, and what the array held before is not read. -/
def Room : ℕ → Option Variable → List Piece → Prop
  | _, none, [] => True
  | k, some _, [] => k = 249
  | k, none, .byte _ :: ps => 250 ≤ k ∨ Room (k + 1) none ps
  | k, some _, .byte _ :: ps => k < 250 ∧ Room (k + 1) none ps
  | k, none, .var v :: ps => 250 ≤ k ∨ Room (k + (value v).length) (some v) ps
  | k, some u, .var v :: ps =>
    if u.rank < v.rank then Room (k + (value v).length) (some v) ps
    else k < 250 ∧ Room (k + v.text.length) none ps

variable {value}

/-- Behind a variable there is room for one byte more. -/
theorem Room.lt {ps : List Piece} {k : ℕ} {u : Variable} (h : Room value k (some u) ps) :
    k < 250 := by
  induction ps generalizing k u with
  | nil =>
    rw [Room] at h
    omega
  | cons p ps ih =>
    cases p with
    | byte x => exact h.1
    | var v =>
      rw [Room] at h
      split at h
      · have hlt := ih h
        omega
      · exact h.1

/-- Where `str` is full, the loop ends. -/
theorem room_full {ps : List Piece} {k : ℕ} (hk : 250 ≤ k) : Room value k none ps := by
  cases ps with
  | nil => trivial
  | cons p ps => cases p <;> exact .inl hk

end

namespace AModify

variable (m : AModify)

/-- The checks for some of the variables. -/
def checks (vs : List Variable) (rest out : Bytes) : Option (Bytes × Bytes) :=
  vs.foldlM (fun p v => setvar v.text (m.value v) p.1 p.2) (rest, out)

/-- What a round does behind the checks. -/
def onward (rounds : ℕ) : Option (Bytes × Bytes) → Option Bytes
  | none => none
  | some ([], _) => none
  | some (y :: rest, out) =>
    if out.length < 250 then m.setvarsLoop rounds rest (out ++ [y]) else none

end AModify

/-! ## One round -/

section

variable {m : AModify} {ps : List Piece} {s junk out : Bytes} {rounds : ℕ}

theorem text_isPrefix_var {v w : Variable} (h : v.text <+: w.text ++ s) : v = w := by
  revert h
  cases v <;> cases w <;> simp [Variable.text, Variable.letters, str]

/-- What a piece list starts with. -/
theorem not_isPrefix_nil (v : Variable) : ¬ v.text <+: piecesText [] := by
  intro h
  cases v <;> exact absurd (List.prefix_nil.mp h) (by decide)

theorem cstr_value (v : Variable) : cstr (m.value v) = m.value v := by
  cases v <;> exact cstr_eq_self (zero_not_mem_cstr _)

/-- A variable that stands at the index. -/
theorem setvar_text (v : Variable) (h0 : 0 ∉ s) :
    setvar v.text (m.value v) (v.text ++ (s ++ 0 :: junk)) out =
      if out.length + (m.value v).length ≤ 250 then some (s ++ 0 :: junk, out ++ m.value v)
      else none := by
  have hv : (0 : UInt8) ∉ v.text := by cases v <;> decide
  have hmem : (0 : UInt8) ∈ v.text ++ (s ++ 0 :: junk) := by simp
  have hcstr : cstr (v.text ++ (s ++ 0 :: junk)) = v.text ++ s := by
    rw [← List.append_assoc]
    exact cstr_append_zero (fun h => (List.mem_append.mp h).elim hv h0) junk
  unfold setvar
  rw [if_neg (not_not_intro hmem), hcstr, if_pos (scompNum_iff.mpr (List.prefix_append ..)),
    cstr_value, List.length_append, List.drop_left]

/-- One that does not. -/
theorem setvar_other {v : Variable} (h0 : 0 ∉ s) (hv : ¬ v.text <+: s) (value : Bytes) :
    setvar v.text value (s ++ 0 :: junk) out = some (s ++ 0 :: junk, out) := by
  have hmem : (0 : UInt8) ∈ s ++ 0 :: junk := by simp
  unfold setvar
  rw [if_neg (not_not_intro hmem), cstr_append_zero h0,
    if_neg (fun h => hv (scompNum_iff.mp h))]

namespace AModify

theorem checks_cons (v : Variable) (vs : List Variable) (rest out : Bytes) :
    m.checks (v :: vs) rest out =
      (setvar v.text (m.value v) rest out).bind fun p => m.checks vs p.1 p.2 := by
  unfold checks
  rw [List.foldlM_cons]
  rfl

theorem checks_skip {vs : List Variable} (h0 : 0 ∉ s) (hvs : ∀ v ∈ vs, ¬ v.text <+: s) :
    m.checks vs (s ++ 0 :: junk) out = some (s ++ 0 :: junk, out) := by
  induction vs with
  | nil => rfl
  | cons v vs ih =>
    rw [checks_cons, setvar_other h0 (hvs v List.mem_cons_self), Option.bind_some,
      ih fun w hw => hvs w (List.mem_cons_of_mem v hw)]

theorem setvarsAt_eq_checks (rest out : Bytes) :
    m.setvarsAt rest out = m.checks Variable.all rest out := by
  have hval : ∀ (var value rest out : Bytes), setvar var value rest out =
      setvar var (cstr value) rest out := by
    intro var value rest out
    unfold setvar
    rw [cstr_eq_self (zero_not_mem_cstr value)]
  unfold setvarsAt checks Variable.all
  simp only [List.foldlM_cons, List.foldlM_nil, bind_pure]
  simp only [hval _ m.name, hval _ m.nas, hval _ m.port, hval _ m.phone]
  rfl

/-! ## From piece to piece -/

/-- The variables that are still looked for behind `last`. -/
def remaining : Option Variable → List Variable
  | none => Variable.all
  | some u => Variable.all.drop (u.rank + 1)

theorem mem_remaining {u v : Variable} : v ∈ remaining (some u) ↔ u.rank < v.rank := by
  cases u <;> cases v <;> decide

theorem remaining_split {last : Option Variable} {v : Variable} (h : Takes last v) :
    ∃ front, remaining last = front ++ v :: remaining (some v) ∧ v ∉ front := by
  refine ⟨(remaining last).takeWhile (· ≠ v), ?_⟩
  cases last with
  | none => cases v <;> decide
  | some u =>
    have huv : u.rank < v.rank := h u rfl
    cases u <;> cases v <;> first | exact absurd huv (by decide) | decide

theorem checks_take {last : Option Variable} {v : Variable} (h : Takes last v) (h0 : 0 ∉ s) :
    m.checks (remaining last) (v.text ++ (s ++ 0 :: junk)) out =
      if out.length + (m.value v).length ≤ 250 then
        m.checks (remaining (some v)) (s ++ 0 :: junk) (out ++ m.value v)
      else none := by
  obtain ⟨front, hsplit, hfront⟩ := remaining_split h
  have hv : (0 : UInt8) ∉ v.text := by cases v <;> decide
  have hskip : m.checks front (v.text ++ (s ++ 0 :: junk)) out =
      some (v.text ++ (s ++ 0 :: junk), out) := by
    rw [← List.append_assoc]
    refine checks_skip (fun hmem => (List.mem_append.mp hmem).elim hv h0) fun w hw hpre => ?_
    exact hfront (text_isPrefix_var hpre ▸ hw)
  have happ : m.checks (front ++ v :: remaining (some v)) (v.text ++ (s ++ 0 :: junk)) out =
      (m.checks front (v.text ++ (s ++ 0 :: junk)) out).bind fun p =>
        m.checks (v :: remaining (some v)) p.1 p.2 := by
    unfold checks
    rw [List.foldlM_append]
    rfl
  rw [hsplit, happ, hskip, Option.bind_some, checks_cons, setvar_text v h0]
  split
  · rfl
  · rfl

theorem checks_miss {u v : Variable} (h : ¬ u.rank < v.rank) (h0 : 0 ∉ s) :
    m.checks (remaining (some u)) (v.text ++ (s ++ 0 :: junk)) out =
      some (v.text ++ (s ++ 0 :: junk), out) := by
  have hv : (0 : UInt8) ∉ v.text := by cases v <;> decide
  rw [← List.append_assoc]
  refine checks_skip (fun hmem => (List.mem_append.mp hmem).elim hv h0) fun w hw hpre => ?_
  exact h (mem_remaining.mp (text_isPrefix_var hpre ▸ hw))

theorem setvarsLoop_full {rest : Bytes} (hrest : rest ≠ []) (hout : 250 ≤ out.length) :
    m.setvarsLoop (rounds + 1) rest out = some out := by
  obtain ⟨x, rest, rfl⟩ := List.exists_cons_of_ne_nil hrest
  rw [setvarsLoop, if_pos (.inr hout)]

theorem setvarsLoop_dollar {rest : Bytes} (hout : out.length < 250) :
    m.setvarsLoop (rounds + 1) (36 :: rest) out =
      m.onward rounds (m.checks Variable.all (36 :: rest) out) := by
  rw [setvarsLoop, if_neg (not_or.mpr ⟨by decide, Nat.not_le.mpr hout⟩), if_pos rfl,
    setvarsAt_eq_checks]
  rfl

theorem setvarsLoop_copy {x : UInt8} {rest : Bytes} (hx0 : x ≠ 0) (hx : x ≠ 36)
    (hout : out.length < 250) :
    m.setvarsLoop (rounds + 1) (x :: rest) out = m.setvarsLoop rounds rest (out ++ [x]) := by
  rw [setvarsLoop, if_neg (not_or.mpr ⟨hx0, Nat.not_le.mpr hout⟩), if_neg hx]
  exact if_pos hout

/-- Bytes that are copied, as far as there is room. -/
theorem setvarsLoop_letters {w rest : Bytes} (hw : ∀ x ∈ w, x ≠ 0 ∧ x ≠ 36)
    (hout : out.length ≤ 250) (hrounds : w.length < rounds) :
    m.setvarsLoop rounds (w ++ rest) out =
      if out.length + w.length ≤ 250 then m.setvarsLoop (rounds - w.length) rest (out ++ w)
      else some ((out ++ w).take 250) := by
  induction w generalizing out rounds with
  | nil => simp [hout]
  | cons x w ih =>
    obtain ⟨rounds, rfl⟩ := Nat.exists_eq_succ_of_ne_zero (Nat.ne_zero_of_lt hrounds)
    obtain ⟨hx0, hx⟩ := hw x List.mem_cons_self
    rw [List.length_cons] at hrounds
    by_cases hfull : out.length < 250
    · rw [List.cons_append, setvarsLoop_copy hx0 hx hfull,
        ih (fun y hy => hw y (List.mem_cons_of_mem x hy)) (by simp; omega) (by omega)]
      simp [Nat.add_assoc, Nat.add_comm 1]
    · have hlen : out.length = 250 := by omega
      rw [setvarsLoop_full (by simp) (by omega), if_neg (by simp; omega),
        List.take_append_of_le_length (by omega), List.take_of_length_le (by omega)]

variable (m) in
/-- The loop at the head of a round, or in the checks behind a variable. -/
def resume : Option Variable → ℕ → Bytes → Bytes → Option Bytes
  | none, rounds, rest, out => m.setvarsLoop rounds rest out
  | some u, rounds, rest, out => m.onward rounds (m.checks (remaining (some u)) rest out)

theorem resume_nil (hjunk : junk ≠ []) (last : Option Variable) :
    m.resume last (rounds + 2) (0 :: junk) out =
      match last with
      | none => some out
      | some _ => if out.length < 250 then
          if out.length = 249 then some (out ++ [0])
          else m.setvarsLoop (rounds + 2) junk (out ++ [0])
        else none := by
  cases last with
  | none =>
    simp only [resume]
    rw [setvarsLoop, if_pos (.inl rfl)]
  | some u =>
    have hskip : m.checks (remaining (some u)) (0 :: junk) out = some (0 :: junk, out) :=
      @checks_skip m [] junk out _ List.not_mem_nil fun v _ => not_isPrefix_nil v
    simp only [resume]
    rw [hskip]
    show (if out.length < 250 then _ else none) = _
    split
    · split
      · next hlen => rw [setvarsLoop_full hjunk (by simp [hlen])]
      · rfl
    · rfl

/-- A byte at the head of a round. -/
theorem resume_byte {x : UInt8} (hx : ∀ v : Variable, ¬ v.text <+: x :: s) (h0 : 0 ∉ x :: s)
    (hout : out.length < 250) :
    m.resume none (rounds + 1) (x :: s ++ 0 :: junk) out =
      m.resume none rounds (s ++ 0 :: junk) (out ++ [x]) := by
  have hx0 : x ≠ 0 := fun h => h0 (h ▸ List.mem_cons_self)
  simp only [resume]
  by_cases hdollar : x = 36
  · have hskip := @checks_skip m (x :: s) junk out Variable.all h0 fun v _ => hx v
    subst hdollar
    rw [List.cons_append] at hskip ⊢
    rw [setvarsLoop_dollar hout, hskip]
    exact if_pos hout
  · exact setvarsLoop_copy hx0 hdollar hout

/-- A byte behind a variable. -/
theorem resume_next {x : UInt8} (hx : ∀ v : Variable, ¬ v.text <+: x :: s) (h0 : 0 ∉ x :: s)
    (u : Variable) :
    m.resume (some u) rounds (x :: s ++ 0 :: junk) out =
      if out.length < 250 then m.resume none rounds (s ++ 0 :: junk) (out ++ [x]) else none := by
  have hskip := @checks_skip m (x :: s) junk out (remaining (some u)) h0 fun v _ => hx v
  simp only [resume]
  rw [hskip]
  rfl

/-- A variable at the head of a round. -/
theorem resume_var (v : Variable) (h0 : 0 ∉ s) (hout : out.length < 250) :
    m.resume none (rounds + 1) (v.text ++ (s ++ 0 :: junk)) out =
      if out.length + (m.value v).length ≤ 250 then
        m.resume (some v) rounds (s ++ 0 :: junk) (out ++ m.value v)
      else none := by
  have htake := @checks_take m s junk out none v (fun u hu => by contradiction) h0
  simp only [resume]
  show m.setvarsLoop (rounds + 1) (36 :: (v.letters ++ (s ++ 0 :: junk))) out = _
  rw [setvarsLoop_dollar hout]
  show m.onward rounds (m.checks (remaining none) (v.text ++ (s ++ 0 :: junk)) out) = _
  rw [htake]
  split
  · rfl
  · rfl

/-- A later variable behind a variable. -/
theorem resume_take {u v : Variable} (huv : u.rank < v.rank) (h0 : 0 ∉ s) :
    m.resume (some u) rounds (v.text ++ (s ++ 0 :: junk)) out =
      if out.length + (m.value v).length ≤ 250 then
        m.resume (some v) rounds (s ++ 0 :: junk) (out ++ m.value v)
      else none := by
  have htake := @checks_take m s junk out (some u) v
    (fun w hw => by obtain rfl := Option.some.inj hw; exact huv) h0
  simp only [resume]
  rw [htake]
  split
  · rfl
  · rfl

/-- Another one behind it is copied as it stands. -/
theorem resume_miss {u v : Variable} (huv : ¬ u.rank < v.rank) (h0 : 0 ∉ s)
    (hrounds : v.letters.length < rounds) :
    m.resume (some u) rounds (v.text ++ (s ++ 0 :: junk)) out =
      if out.length < 250 then
        if out.length + v.text.length ≤ 250 then
          m.resume none (rounds - v.letters.length) (s ++ 0 :: junk) (out ++ v.text)
        else some ((out ++ v.text).take 250)
      else none := by
  have hmiss := @checks_miss m s junk out u v huv h0
  have hletters : ∀ x ∈ v.letters, x ≠ 0 ∧ x ≠ 36 := by
    cases v <;> simp [Variable.letters, str]
  simp only [resume]
  rw [hmiss]
  show (if out.length < 250 then
    m.setvarsLoop rounds (v.letters ++ (s ++ 0 :: junk)) (out ++ [36]) else none) = _
  split
  · have hsnoc : out ++ [36] ++ v.letters = out ++ v.text := by simp [Variable.text]
    have htext : v.text.length = v.letters.length + 1 := rfl
    rw [setvarsLoop_letters hletters (by simp; omega) hrounds, hsnoc, List.length_append,
      List.length_singleton, htext, Nat.add_assoc, Nat.add_comm 1]
  · rfl

/-! ## The whole text -/

/-- What the loop leaves of a text: all of it or what `str` takes, or all of it and the NUL. -/
def Leaves (text : Bytes) (r : Option Bytes) : Prop :=
  r = some (text.take 250) ∨ text.length < 250 ∧ r = some (text ++ [0])

theorem leaves_full (hout : out.length = 250) (more : Bytes) :
    Leaves (out ++ more) (some out) := by
  left
  rw [List.take_append_of_le_length (by omega), List.take_of_length_le (by omega)]

/-- **With room**: the values are put in as `left` says, whatever stands behind the text. -/
theorem resume_room {last : Option Variable} (hps : Canonical ps) (h0 : 0 ∉ piecesText ps)
    (hjunk : junk ≠ []) (hout : out.length ≤ 250) (hrounds : (piecesText ps).length + 2 < rounds)
    (hroom : Room m.value out.length last ps) :
    Leaves (out ++ left m.value last ps)
      (m.resume last rounds (piecesText ps ++ 0 :: junk) out) := by
  induction ps generalizing last out rounds with
  | nil =>
    obtain ⟨rounds, rfl⟩ : ∃ n, rounds = n + 2 := ⟨rounds - 2, by omega⟩
    show Leaves _ (m.resume last (rounds + 2) (0 :: junk) out)
    rw [resume_nil hjunk]
    cases last with
    | none =>
      left
      rw [left, List.append_nil, List.take_of_length_le hout]
    | some u =>
      have hlen : out.length = 249 := hroom
      right
      simp only [left, List.append_nil, hlen]
      exact ⟨by decide, rfl⟩
  | cons p ps ih =>
    have htext : piecesText (p :: ps) = p.text ++ piecesText ps := rfl
    rw [htext] at h0 hrounds ⊢
    have h0' : 0 ∉ piecesText ps := fun h => h0 (List.mem_append_right _ h)
    obtain ⟨rounds, rfl⟩ : ∃ n, rounds = n + 1 := ⟨rounds - 1, by omega⟩
    rw [List.length_append] at hrounds
    cases p with
    | byte x =>
      obtain ⟨hx, hps⟩ := hps
      have hlen : ([x] : Bytes).length = 1 := rfl
      rw [Piece.text, hlen] at hrounds
      have hnext : ∀ rounds, (piecesText ps).length + 2 < rounds → out.length < 250 →
          Room m.value (out.length + 1) none ps →
          Leaves (out ++ left m.value last (.byte x :: ps))
            (m.resume none rounds (piecesText ps ++ 0 :: junk) (out ++ [x])) := by
        intro rounds hrounds hlt hroom
        have hrest := @ih (out ++ [x]) rounds none hps h0' (by simp; omega) hrounds
          (by simpa using hroom)
        rw [List.append_assoc] at hrest
        exact hrest
      cases last with
      | none =>
        by_cases hfull : out.length < 250
        · show Leaves _ (m.resume none (rounds + 1) (x :: piecesText ps ++ 0 :: junk) out)
          rw [resume_byte hx h0 hfull]
          exact hnext rounds (by omega) hfull (hroom.resolve_left (by omega))
        · simp only [resume]
          rw [setvarsLoop_full (by simp [Piece.text]) (by omega)]
          exact leaves_full (by omega) _
      | some u =>
        show Leaves _ (m.resume (some u) (rounds + 1) (x :: piecesText ps ++ 0 :: junk) out)
        rw [resume_next hx h0, if_pos hroom.1]
        exact hnext (rounds + 1) (by omega) hroom.1 hroom.2
    | var v =>
      have hlen : (Piece.var v).text.length = v.letters.length + 1 := rfl
      rw [hlen] at hrounds
      have hput : ∀ rounds, (piecesText ps).length + 2 < rounds →
          Room m.value (out.length + (m.value v).length) (some v) ps → Takes last v →
          out.length + (m.value v).length ≤ 250 ∧
          Leaves (out ++ left m.value last (.var v :: ps))
            (m.resume (some v) rounds (piecesText ps ++ 0 :: junk) (out ++ m.value v)) := by
        intro rounds hrounds hroom htakes
        have hlt := hroom.lt
        refine ⟨hlt.le, ?_⟩
        have hrest := @ih (out ++ m.value v) rounds (some v) hps h0' (by simp; omega) hrounds
          (by simpa using hroom)
        rw [List.append_assoc] at hrest
        rw [left, if_pos htakes]
        exact hrest
      rw [Piece.text, List.append_assoc]
      cases last with
      | none =>
        by_cases hfull : out.length < 250
        · obtain ⟨hfits, hrest⟩ := hput rounds (by omega) (hroom.resolve_left (by omega))
            (fun u hu => by contradiction)
          rw [resume_var v h0' hfull, if_pos hfits]
          exact hrest
        · simp only [resume]
          rw [setvarsLoop_full (by simp [Variable.text]) (by omega)]
          exact leaves_full (by omega) _
      | some u =>
        rw [Room] at hroom
        by_cases huv : u.rank < v.rank
        · rw [if_pos huv] at hroom
          obtain ⟨hfits, hrest⟩ := hput (rounds + 1) (by omega) hroom
            (fun w hw => by obtain rfl := Option.some.inj hw; exact huv)
          rw [resume_take huv h0', if_pos hfits]
          exact hrest
        · rw [if_neg huv] at hroom
          have hmiss : ¬ Takes (some u) v := fun h => huv (h u rfl)
          rw [resume_miss huv h0' (by omega), if_pos hroom.1, left, if_neg hmiss,
            ← List.append_assoc]
          split
          · next hfits =>
            exact ih hps h0' (by rw [List.length_append]; exact hfits) (by omega)
              (by rw [List.length_append]; exact hroom.2)
          · next hlong =>
            have htake : (out ++ v.text ++ left m.value none ps).take 250 =
                (out ++ v.text).take 250 :=
              List.take_append_of_le_length (by rw [List.length_append]; omega)
            left
            rw [htake]

/-- **Without room**: with nothing but `$` behind the text the loop leaves an array. -/
theorem resume_no_room {last : Option Variable} {n : ℕ} (hps : Canonical ps)
    (h0 : 0 ∉ piecesText ps) (hout : out.length ≤ 250)
    (hrounds : (piecesText ps).length + 2 < rounds) (hroom : ¬ Room m.value out.length last ps) :
    m.resume last rounds (piecesText ps ++ 0 :: List.replicate (n + 1) 36) out = none := by
  induction ps generalizing last out rounds with
  | nil =>
    obtain ⟨rounds, rfl⟩ : ∃ n, rounds = n + 2 := ⟨rounds - 2, by omega⟩
    show m.resume last (rounds + 2) (0 :: List.replicate (n + 1) 36) out = none
    rw [resume_nil (by simp)]
    cases last with
    | none => exact absurd trivial hroom
    | some u =>
      have hlen : ¬ out.length = 249 := hroom
      simp only [if_neg hlen]
      split
      · have hzero : (0 : UInt8) ∉ 36 :: List.replicate n 36 := by simp
        rw [List.replicate_succ, setvarsLoop_dollar (by simp; omega), Variable.all, checks_cons]
        unfold setvar
        rw [if_pos hzero]
        rfl
      · rfl
  | cons p ps ih =>
    have htext : piecesText (p :: ps) = p.text ++ piecesText ps := rfl
    rw [htext] at h0 hrounds ⊢
    have h0' : 0 ∉ piecesText ps := fun h => h0 (List.mem_append_right _ h)
    obtain ⟨rounds, rfl⟩ : ∃ n, rounds = n + 1 := ⟨rounds - 1, by omega⟩
    rw [List.length_append] at hrounds
    cases p with
    | byte x =>
      obtain ⟨hx, hps⟩ := hps
      have hlen : ([x] : Bytes).length = 1 := rfl
      rw [Piece.text, hlen] at hrounds
      cases last with
      | none =>
        obtain ⟨hfull, hroom⟩ := not_or.mp hroom
        show m.resume none (rounds + 1) (x :: piecesText ps ++ 0 :: _) out = none
        rw [resume_byte hx h0 (by omega)]
        exact ih hps h0' (by simp; omega) (by omega) (by simpa using hroom)
      | some u =>
        show m.resume (some u) (rounds + 1) (x :: piecesText ps ++ 0 :: _) out = none
        rw [resume_next hx h0]
        split
        · next hlt =>
          exact ih hps h0' (by simp; omega) (by omega) (by simpa using fun h => hroom ⟨hlt, h⟩)
        · rfl
    | var v =>
      have hlen : (Piece.var v).text.length = v.letters.length + 1 := rfl
      rw [hlen] at hrounds
      rw [Piece.text, List.append_assoc]
      cases last with
      | none =>
        obtain ⟨hfull, hroom⟩ := not_or.mp hroom
        rw [resume_var v h0' (by omega)]
        split
        · next hfits =>
          exact ih hps h0' (by simpa using hfits) (by omega) (by simpa using hroom)
        · rfl
      | some u =>
        rw [Room] at hroom
        by_cases huv : u.rank < v.rank
        · rw [if_pos huv] at hroom
          rw [resume_take huv h0']
          split
          · next hfits =>
            exact ih hps h0' (by simpa using hfits) (by omega) (by simpa using hroom)
          · rfl
        · rw [if_neg huv] at hroom
          rw [resume_miss huv h0' (by omega)]
          split
          · next hlt =>
            have hrest : ¬ Room m.value (out.length + v.text.length) none ps :=
              fun h => hroom ⟨hlt, h⟩
            have hfits : out.length + v.text.length ≤ 250 := by
              by_contra hlong
              exact hrest (room_full (by omega))
            rw [if_pos hfits]
            exact ih hps h0' (by simpa using hfits) (by omega) (by simpa using hrest)
          · rfl

end AModify

end

/-! ## When the values are put in -/

/-- A variable is followed by no other one but a later one. -/
def Follows : Piece → Piece → Prop
  | .var u, .var v => u.rank < v.rank
  | _, _ => True

def EndsInVariable (ps : List Piece) : Prop := ∃ v, ps.getLast? = some (.var v)

/-- A variable that has just been put in, and what follows. -/
def behind (last : Option Variable) (ps : List Piece) : List Piece :=
  (last.map Piece.var).toList ++ ps

section

variable {value : Variable → Bytes} {ps : List Piece} {last : Option Variable}

theorem isChain_behind_byte {x : UInt8} :
    (behind last (.byte x :: ps)).IsChain Follows ↔ (behind none ps).IsChain Follows := by
  have hcons : ∀ (u : Variable) (qs : List Piece),
      (Piece.var u :: .byte x :: qs).IsChain Follows ↔
        (.byte x :: qs : List Piece).IsChain Follows :=
    fun u qs => by simp [List.isChain_cons_cons, Follows]
  have hbyte : (.byte x :: ps : List Piece).IsChain Follows ↔ ps.IsChain Follows := by
    rw [List.isChain_cons]
    exact and_iff_right fun q _ => trivial
  cases last with
  | none => exact hbyte
  | some u => exact (hcons u ps).trans hbyte

theorem isChain_behind_var {v : Variable} :
    (behind last (.var v :: ps)).IsChain Follows ↔
      Takes last v ∧ (behind (some v) ps).IsChain Follows := by
  cases last with
  | none =>
    refine (and_iff_right fun u hu => ?_).symm
    contradiction
  | some u =>
    show (Piece.var u :: .var v :: ps).IsChain Follows ↔ _
    rw [List.isChain_cons_cons]
    refine and_congr ?_ Iff.rfl
    constructor
    · rintro huv w hw
      obtain rfl := Option.some.inj hw
      exact huv
    · exact fun h => h u rfl

/-- Where the variables follow as they are looked for, all values are put in. -/
theorem left_of_chain (h : (behind last ps).IsChain Follows) :
    left value last ps = ps.flatMap (Piece.put value) := by
  induction ps generalizing last with
  | nil => rfl
  | cons p ps ih =>
    cases p with
    | byte x =>
      rw [left, ih (isChain_behind_byte.mp h)]
      rfl
    | var v =>
      obtain ⟨htakes, hrest⟩ := isChain_behind_var.mp h
      rw [left, if_pos htakes, ih hrest]
      rfl

def Piece.isByte : Piece → Bool
  | byte _ => true
  | var _ => false

/-- With empty values, a variable that is not replaced makes the text longer. -/
theorem left_empty (ps : List Piece) (last : Option Variable) :
    ps.countP Piece.isByte ≤ (left (fun _ => []) last ps).length ∧
      ((left (fun _ => []) last ps).length = ps.countP Piece.isByte →
        (behind last ps).IsChain Follows) := by
  induction ps generalizing last with
  | nil =>
    refine ⟨Nat.zero_le _, fun _ => ?_⟩
    cases last with
    | none => exact List.isChain_nil
    | some u => exact List.isChain_singleton _
  | cons p ps ih =>
    cases p with
    | byte x =>
      obtain ⟨hle, heq⟩ := ih none
      rw [left, List.length_cons, List.countP_cons_of_pos rfl, isChain_behind_byte]
      exact ⟨Nat.succ_le_succ hle, fun h => heq (Nat.succ.inj h)⟩
    | var v =>
      rw [left, List.countP_cons_of_neg Bool.false_ne_true, isChain_behind_var]
      split
      · next htakes =>
        obtain ⟨hle, heq⟩ := ih (some v)
        exact ⟨hle, fun h => ⟨htakes, heq h⟩⟩
      · obtain ⟨hle, -⟩ := ih none
        have hlen : 0 < v.text.length := Nat.succ_pos _
        rw [List.length_append]
        constructor
        · omega
        · intro h
          omega

theorem endsInVariable_behind (last : Option Variable) (p : Piece) (ps : List Piece) :
    EndsInVariable (behind last (p :: ps)) ↔ EndsInVariable (p :: ps) := by
  unfold EndsInVariable behind
  rw [List.getLast?_append, List.getLast?_cons, Option.some_or]

theorem endsInVariable_byte {x : UInt8} :
    EndsInVariable (.byte x :: ps) ↔ EndsInVariable ps := by
  unfold EndsInVariable
  cases ps with
  | nil => simp
  | cons p ps => rw [List.getLast?_cons_cons]

/-- A text that fits has room, but for a variable at its end. -/
theorem room_of_short {k : ℕ} (hchain : (behind last ps).IsChain Follows)
    (hlen : k + (left value last ps).length ≤ 249) :
    Room value k last ps ↔
      (EndsInVariable (behind last ps) → k + (left value last ps).length = 249) := by
  induction ps generalizing last k with
  | nil =>
    cases last with
    | none =>
      refine iff_of_true trivial ?_
      rintro ⟨v, hv⟩
      contradiction
    | some u =>
      have hends : EndsInVariable (behind (some u) []) := ⟨u, rfl⟩
      show k = 249 ↔ _
      simp [hends, left]
  | cons p ps ih =>
    cases p with
    | byte x =>
      have hchain := isChain_behind_byte.mp hchain
      rw [left, List.length_cons] at hlen
      have hends : EndsInVariable (behind last (.byte x :: ps)) ↔ EndsInVariable (behind none ps) :=
        (endsInVariable_behind last _ ps).trans endsInVariable_byte
      have hrest := @ih none (k + 1) hchain (by omega)
      rw [left, List.length_cons, hends, ← Nat.add_assoc, Nat.add_right_comm, ← hrest]
      cases last with
      | none => exact or_iff_right (by omega)
      | some u => exact and_iff_right (by omega)
    | var v =>
      obtain ⟨htakes, hchain⟩ := isChain_behind_var.mp hchain
      rw [left, if_pos htakes, List.length_append] at hlen
      have hends : EndsInVariable (behind last (.var v :: ps)) ↔
          EndsInVariable (behind (some v) ps) :=
        endsInVariable_behind last _ ps
      have hrest := @ih (some v) (k + (value v).length) hchain (by omega)
      rw [left, if_pos htakes, List.length_append, hends, ← Nat.add_assoc, ← hrest]
      cases last with
      | none => exact or_iff_right (by omega)
      | some u =>
        rw [Room, if_pos (htakes u rfl)]

end

/-! ## `setvars` -/

/-- A command text. -/
structure CommandText where
  text : Bytes
  zero : 0 ∉ text
  length : text.length ≤ 298

namespace AModify

variable (m : AModify)

/-- The array `c`. -/
def array (sc : Bytes) : Bytes :=
  snprintf 299 sc ++ 0 :: m.stack.drop ((snprintf 299 sc).length + 1)

/-- The loop does not leave its arrays, whatever the array `c` held before. -/
def Stays (sc : Bytes) : Prop :=
  ∀ (stack : Bytes) (h : stack.length = 300),
    let m' : AModify := { m with stack := stack, stack_length := h }
    m'.setvarsLoop 301 (m'.array sc) [] ≠ none

variable {m}

theorem zero_not_mem_left {value : Variable → Bytes} {ps : List Piece} (last : Option Variable)
    (hvalue : ∀ v, 0 ∉ value v) (h0 : 0 ∉ piecesText ps) : 0 ∉ left value last ps := by
  induction ps generalizing last with
  | nil => exact List.not_mem_nil
  | cons p ps ih =>
    have htext : piecesText (p :: ps) = p.text ++ piecesText ps := rfl
    rw [htext] at h0
    have hrest : ∀ last, 0 ∉ left value last ps := fun last =>
      ih last fun h => h0 (List.mem_append_right _ h)
    have hp : 0 ∉ p.text := fun h => h0 (List.mem_append_left _ h)
    cases p with
    | byte x =>
      rw [left, List.mem_cons]
      rintro (h | h)
      · exact hp (List.mem_singleton.mpr h)
      · exact hrest none h
    | var v =>
      rw [left]
      split
      · exact fun h => (List.mem_append.mp h).elim (hvalue v) (hrest _)
      · exact fun h => (List.mem_append.mp h).elim hp (hrest _)

theorem array_eq (c : CommandText) : ∃ junk, m.array c.text = c.text ++ 0 :: junk ∧
    junk = m.stack.drop (c.text.length + 1) ∧ junk ≠ [] := by
  have hsame : snprintf 299 c.text = c.text := snprintf_eq_self c.zero c.length
  refine ⟨_, by rw [array, hsame], rfl, fun h => ?_⟩
  have hlen := List.drop_eq_nil_iff.mp h
  have hstack := m.stack_length
  have htext := c.length
  omega

/-- **With room**: what `setvars` gives for every text. -/
theorem setvars_room (c : CommandText) (h : Room m.value 0 none (pieces c.text)) :
    m.setvarsLoop 301 (m.array c.text) [] ≠ none ∧ m.setvars c.text =
      if (left m.value none (pieces c.text)).length < 250 then
        some (left m.value none (pieces c.text)) else none := by
  obtain ⟨junk, harray, -, hjunk⟩ := m.array_eq c
  have hleaves := @resume_room m (pieces c.text) junk [] 301 none (canonical_piecesFrom 0 _)
    (by rw [piecesText_pieces]; exact c.zero) hjunk (Nat.zero_le _)
    (by rw [piecesText_pieces]; have := c.length; omega) h
  have hzero : 0 ∉ left m.value none (pieces c.text) :=
    zero_not_mem_left none (fun v => by cases v <;> exact zero_not_mem_cstr _)
      (by rw [piecesText_pieces]; exact c.zero)
  rw [piecesText_pieces, ← harray, List.nil_append] at hleaves
  simp only [resume] at hleaves
  have hsetvars : ∀ out, m.setvarsLoop 301 (m.array c.text) [] = some out →
      m.setvars c.text = if 0 ∈ out then some (cstr out) else terminated 250 out := by
    intro out hout
    unfold setvars
    unfold array at hout
    simp only [hout]
  rcases hleaves with hloop | ⟨hlen, hloop⟩
  · refine ⟨by rw [hloop]; exact Option.some_ne_none _, ?_⟩
    rw [hsetvars _ hloop, if_neg fun h => hzero (List.mem_of_mem_take h), terminated,
      List.length_take]
    split
    · next hlt => rw [if_pos (by omega), List.take_of_length_le (by omega)]
    · next hlt => rw [if_neg (by omega)]
  · refine ⟨by rw [hloop]; exact Option.some_ne_none _, ?_⟩
    rw [hsetvars _ hloop, if_pos (by simp), if_pos hlen, cstr_append_zero hzero]

/-- Without room, behind a text with nothing but `$`. -/
theorem setvarsLoop_no_room (c : CommandText) (hstack : m.stack = List.replicate 300 36)
    (hroom : ¬ Room m.value 0 none (pieces c.text)) :
    m.setvarsLoop 301 (m.array c.text) [] = none := by
  obtain ⟨junk, harray, hjunk, -⟩ := m.array_eq c
  have htext := c.length
  have hdollars : junk = List.replicate (298 - c.text.length + 1) 36 := by
    rw [hjunk, hstack, List.drop_replicate]
    congr 1
    omega
  have hfault := @resume_no_room m (pieces c.text) [] 301 none (298 - c.text.length)
    (canonical_piecesFrom 0 _) (by rw [piecesText_pieces]; exact c.zero) (Nat.zero_le _)
    (by rw [piecesText_pieces]; omega) hroom
  rw [piecesText_pieces, ← hdollars] at hfault
  rw [harray]
  exact hfault

/-- **Inside the arrays**: there is room for what is put in. -/
theorem stays_iff (c : CommandText) :
    m.Stays c.text ↔ Room m.value 0 none (pieces c.text) := by
  constructor
  · intro hstays
    by_contra hroom
    exact hstays (List.replicate 300 36) (List.length_replicate ..)
      (setvarsLoop_no_room c rfl hroom)
  · intro hroom stack h
    exact (@setvars_room { m with stack := stack, stack_length := h } c hroom).1

end AModify

/-- The text alone decides: the bytes outside the variables do not fit, or no variable
stands directly behind itself or a later one, and a variable at the end fills the buffer. -/
def Separate (sc : Bytes) : Prop :=
  249 < (pieces sc).countP Piece.isByte ∨
    (pieces sc).IsChain Follows ∧
      (EndsInVariable (pieces sc) → (pieces sc).countP Piece.isByte = 249)

theorem length_replaced (value : Variable → Bytes) (ps : List Piece) :
    ps.countP Piece.isByte ≤ (ps.flatMap (Piece.put value)).length ∧
      ((∀ v, value v = []) → (ps.flatMap (Piece.put value)).length = ps.countP Piece.isByte) := by
  induction ps with
  | nil => exact ⟨Nat.le_refl 0, fun _ => rfl⟩
  | cons p ps ih =>
    rw [List.flatMap_cons, List.length_append]
    cases p with
    | byte x =>
      rw [List.countP_cons_of_pos rfl]
      have hone : (Piece.put value (.byte x)).length = 1 := rfl
      exact ⟨by omega, fun h => by rw [hone, ih.2 h, Nat.add_comm]⟩
    | var v =>
      rw [List.countP_cons_of_neg Bool.false_ne_true]
      refine ⟨by omega, fun h => ?_⟩
      have hzero : (Piece.put value (.var v)).length = 0 := by rw [Piece.put, h v]; rfl
      rw [hzero, ih.2 h, Nat.zero_add]

/-- A server with no name for anything. -/
def emptyModify : AModify :=
  ⟨[], [], [], [], [], fun _ _ => [], List.replicate 300 36, List.length_replicate ..⟩

/-- **When all values are put in that fit.** -/
theorem replaces_iff (c : CommandText) :
    (∀ m : AModify, (replaced m.value c.text).length ≤ 249 →
      m.setvars c.text = some (replaced m.value c.text)) ↔ Separate c.text := by
  have hplain := fun value => length_replaced value (pieces c.text)
  constructor
  · intro hall
    by_cases hwide : 249 < (pieces c.text).countP Piece.isByte
    · exact .inl hwide
    -- the text with empty values, in front of nothing but `$`
    have hvalue : emptyModify.value = fun _ => [] := by
      funext v
      cases v <;> rfl
    have hlen : (replaced emptyModify.value c.text).length =
        (pieces c.text).countP Piece.isByte := (hplain _).2 fun v => by rw [hvalue]
    have hset := hall emptyModify (by omega)
    have hroom : Room emptyModify.value 0 none (pieces c.text) := by
      by_contra hroom
      have hfault := AModify.setvarsLoop_no_room c rfl hroom
      unfold AModify.array at hfault
      unfold AModify.setvars at hset
      simp only [hfault] at hset
      contradiction
    have hleft := (AModify.setvars_room c hroom).2
    rw [hset] at hleft
    split at hleft
    · have hsame := Option.some.inj hleft
      have hchain : (pieces c.text).IsChain Follows := by
        refine (left_empty (pieces c.text) none).2 ?_
        rw [← hvalue, ← hsame, hlen]
      have hlen' : (left emptyModify.value none (pieces c.text)).length =
          (pieces c.text).countP Piece.isByte := by rw [← hsame, hlen]
      have hends := (@room_of_short emptyModify.value (pieces c.text) none 0 hchain
        (by omega)).mp hroom
      rw [Nat.zero_add, hlen'] at hends
      exact .inr ⟨hchain, hends⟩
    · contradiction
  · rintro (hwide | ⟨hchain, hends⟩) m hfits
    · have hle := (hplain m.value).1
      unfold replaced at hfits
      omega
    · have hleft : left m.value none (pieces c.text) = replaced m.value c.text :=
        @left_of_chain m.value (pieces c.text) none hchain
      have hroom : Room m.value 0 none (pieces c.text) := by
        refine (@room_of_short m.value (pieces c.text) none 0 hchain
          (by rw [hleft]; omega)).mpr fun h => ?_
        have hle := (hplain m.value).1
        rw [Nat.zero_add, hleft]
        have hfull := hends h
        unfold replaced at hfits ⊢
        omega
      rw [(AModify.setvars_room c hroom).2, hleft, if_pos (by omega)]

/-- **Variables in a command text.**  All occurrences are replaced, for all values that fit, if and
only if the text is `Separate`; and for each text and values, the loop stays inside its arrays
if and only if there is `Room`. -/
theorem setvars_iff (c : CommandText) :
    ((∀ m : AModify, (replaced m.value c.text).length ≤ 249 →
      m.setvars c.text = some (replaced m.value c.text)) ↔ Separate c.text) ∧
    ∀ m : AModify, m.Stays c.text ↔ Room m.value 0 none (pieces c.text) :=
  ⟨replaces_iff c, fun _ => AModify.stays_iff c⟩

/-- A name of any length at the port `tty1`, behind it an array of NULs. -/
def atTty1 (name : Bytes) : AModify :=
  ⟨name, str "10.0.0.1", str "tty1", [], [], fun _ _ => [], List.replicate 300 0, length_zeros⟩

def portAndName : CommandText := ⟨str "$port$name", by decide, by decide⟩

/-- The name behind the port is not replaced, and a long name does not fit. -/
theorem setvars_adjacent_and_long :
    (atTty1 (str "bob")).setvars portAndName.text = some (str "tty1$name") ∧
      replaced (atTty1 (str "bob")).value portAndName.text = str "tty1bob" ∧
      (atTty1 (List.replicate 251 97)).setvarsLoop 301
        ((atTty1 (List.replicate 251 97)).array (str "$name;")) [] = none := by
  refine ⟨?_, ?_, ?_⟩ <;> decide +kernel

end Tacppd
