/-
# Reading from a terminal

`VtyTerm` reads bytes until a key ends the line.  The result of `sockread` is not looked at, and
the byte is set to 0 before: behind the bytes of the peer zeros are read without end.  No loop
ends on a zero but the one in `toptions` outside a command, so each of them ends if and only if
the bytes that it reads are complete: an option negotiation, a symbol, symbols with a key that
`treadstr` returns, symbols with the one that executes the command (`vtyTerm_ends_iff`).

What is written to the terminal is left out.
-/
import Tacppd.Lib.Loops
import Tacppd.VtyLine

namespace Tacppd

/-! ## The terminal -/

/-- What is still to be received, the line, and the size of the window. -/
structure VtyTerm where
  inp : Bytes
  line : Option VtyLine
  width : UInt8
  height : UInt8
  deriving DecidableEq, Repr

/-- One `sockread` behind `bzero`: a zero when there is nothing. -/
def VtyTerm.next (t : VtyTerm) : UInt8 × VtyTerm := (t.inp.headD 0, { t with inp := t.inp.tail })

/-! ## `toptions` -/

/-- `WILL`, `WONT`, `DO` and `DONT`. -/
def StartsCommand (x : UInt8) : Prop := 251 ≤ x ∧ x ≤ 254

/-- `TELOPT_ECHO`, `TELOPT_SGA`, `TELOPT_NAOFFD` and `TELOPT_NAWS`. -/
def EndsCommand (x : UInt8) : Prop := x = 1 ∨ x = 3 ∨ x = 13 ∨ x = 31

instance (x : UInt8) : Decidable (StartsCommand x) :=
  inferInstanceAs (Decidable (251 ≤ x ∧ x ≤ 254))

instance (x : UInt8) : Decidable (EndsCommand x) :=
  inferInstanceAs (Decidable (x = 1 ∨ x = 3 ∨ x = 13 ∨ x = 31))

/-- The four bytes of a window size. -/
def VtyTerm.windowSize (t : VtyTerm) : VtyTerm :=
  { t with inp := t.inp.drop 4, width := t.inp.getD 1 0, height := t.inp.getD 3 0 }

/-- The flags of `toptions`, and the terminal. -/
structure Options where
  inSub : Bool
  inCmd : Bool
  term : VtyTerm

/-- One round. -/
def optionsRound (st : Options) : Options ⊕ VtyTerm :=
  let (x, t) := st.term.next
  if x = 240 then .inr t
  else if EndsCommand x ∧ st.inCmd then .inr t
  else
    let inCmd := st.inCmd || decide (StartsCommand x)
    let inSub := st.inSub || decide (x = 250)
    let t := if x = 31 then t.windowSize else t
    if inCmd || inSub then .inl ⟨inSub, inCmd, t⟩ else .inr t

/-- `toptions`, behind an `IAC`. -/
def toptions (rounds : ℕ) (t : VtyTerm) : Option VtyTerm :=
  Loops.run (fun _ st => some (optionsRound st)) rounds ⟨false, false, t⟩

/-! ## `tsymbol` -/

/-- The keys, as `control` has them. -/
inductive Control
  | insertChar
  | beginningOfLine
  | backwardChar
  | deleteChar
  | endOfLine
  | forwardChar
  | deleteBackwardChar
  | clearLine
  | nextCommand
  | previousCommand
  | clearLineFromBeginning
  | killWord
  | executeCommand
  | completeCommand
  | getHelp
  | up
  | down
  | left
  | right
  deriving DecidableEq, Repr

/-- The symbol for a byte, with `escStat` before it. -/
def symbolOf (esc : ℕ) (x : UInt8) : Control × UInt8 :=
  let arrow (key : Control) := if esc = 2 then (key, 0) else (Control.insertChar, x)
  if x = 65 then arrow .up
  else if x = 66 then arrow .down
  else if x = 67 then arrow .right
  else if x = 68 then arrow .left
  else if x = 1 then (.beginningOfLine, 0)
  else if x = 2 then (.backwardChar, 0)
  else if x = 4 then (.deleteChar, 0)
  else if x = 5 then (.endOfLine, 0)
  else if x = 6 then (.forwardChar, 0)
  else if x = 8 ∨ x = 127 then (.deleteBackwardChar, 0)
  else if x = 11 then (.clearLine, 0)
  else if x = 14 then (.nextCommand, 0)
  else if x = 16 then (.previousCommand, 0)
  else if x = 21 then (.clearLineFromBeginning, 0)
  else if x = 23 then (.killWord, 0)
  else if x = 13 then (.executeCommand, 0)
  else if x = 9 then (.completeCommand, 0)
  else if x = 63 then (.getHelp, 0)
  else (.insertChar, x)

/-- One round, with `escStat`: it goes on behind options, an escape, a bracket behind one, and a
newline. -/
def symbolRound (rounds : ℕ) (st : ℕ × VtyTerm) :
    Option ((ℕ × VtyTerm) ⊕ (Control × UInt8) × VtyTerm) :=
  let (x, t) := st.2.next
  if x = 255 then (toptions rounds t).map fun t => .inl (st.1, t)
  else if x = 27 then some (.inl (1, t))
  else if x = 91 ∧ st.1 = 1 then some (.inl (2, t))
  else if x = 10 then some (.inl (st.1, t))
  else some (.inr (symbolOf st.1 x, t))

/-- `tsymbol`. -/
def tsymbol (rounds : ℕ) (t : VtyTerm) : Option ((Control × UInt8) × VtyTerm) :=
  Loops.run symbolRound rounds (0, t)

/-! ## `treadstr` and `readstr` -/

/-- The editing operation for a symbol. -/
def editKey : Control × UInt8 → Option VtyKey
  | (.insertChar, c) => if h : c ≠ 0 then some (.insertChar c h) else none
  | (.beginningOfLine, _) => some .beginningOfLine
  | (.endOfLine, _) => some .endOfLine
  | (.left, _) => some .left
  | (.backwardChar, _) => some .left
  | (.right, _) => some .right
  | (.forwardChar, _) => some .right
  | (.deleteChar, _) => some .deleteChar
  | (.deleteBackwardChar, _) => some .deleteBackwardChar
  | (.clearLine, _) => some .clearLine
  | (.clearLineFromBeginning, _) => some .clearLineFromBeginning
  | _ => none

/-- What `treadstr` returns for a symbol. -/
def returned : Control → Option Control
  | .executeCommand => some .executeCommand
  | .completeCommand => some .completeCommand
  | .down => some .nextCommand
  | .nextCommand => some .nextCommand
  | .up => some .previousCommand
  | .previousCommand => some .previousCommand
  | .getHelp => some .getHelp
  | _ => none

/-- An operation that leaves the array leaves no line; the loop reads on. -/
def VtyTerm.edit (t : VtyTerm) (symbol : Control × UInt8) : VtyTerm :=
  match editKey symbol with
  | none => t
  | some key => { t with line := t.line.bind key.run }

def readRound (rounds : ℕ) (t : VtyTerm) : Option (VtyTerm ⊕ Control × VtyTerm) :=
  (tsymbol rounds t).map fun out =>
    match returned out.1.1 with
    | some key => .inr (key, out.2)
    | none => .inl (out.2.edit out.1)

/-- `treadstr`. -/
def treadstr (rounds : ℕ) (t : VtyTerm) : Option (Control × VtyTerm) :=
  Loops.run readRound rounds t

def lineRound (rounds : ℕ) (t : VtyTerm) : Option (VtyTerm ⊕ VtyTerm) :=
  (treadstr rounds t).map fun out =>
    if out.1 = .executeCommand then .inr out.2 else .inl out.2

/-- `readstr`. -/
def readstr (rounds : ℕ) (t : VtyTerm) : Option VtyTerm :=
  Loops.run lineRound rounds { t with line := lineEditor.init }

/-! ## What is read -/

/-- These bytes are read one after the other. -/
def Reads : Bytes → Bytes → Prop
  | _, [] => True
  | inp, x :: w => inp.headD 0 = x ∧ Reads inp.tail w

/-- A byte of an option negotiation that changes nothing, with `inCmd` before it. -/
def PlainOption (inCmd : Bool) (x : UInt8) : Prop :=
  x ≠ 240 ∧ x ≠ 250 ∧ ¬ StartsCommand x ∧ if inCmd then ¬ EndsCommand x else x ≠ 31

/-- A complete option negotiation, with the flags at its start. -/
inductive Negotiation : Bool → Bool → Bytes → Prop
  | se (inSub inCmd : Bool) : Negotiation inSub inCmd [240]
  | option (inSub : Bool) {x : UInt8} (hx : EndsCommand x) : Negotiation inSub true [x]
  | command {inSub : Bool} (inCmd : Bool) {x : UInt8} {w : Bytes} (hx : StartsCommand x)
      (h : Negotiation inSub true w) : Negotiation inSub inCmd (x :: w)
  | sub (inSub : Bool) {inCmd : Bool} {w : Bytes} (h : Negotiation true inCmd w) :
      Negotiation inSub inCmd (250 :: w)
  | single {x : UInt8} (hx : PlainOption false x) : Negotiation false false [x]
  | size (a b c d : UInt8) : Negotiation false false [31, a, b, c, d]
  | sizeSub (a b c d : UInt8) {w : Bytes} (h : Negotiation true false w) :
      Negotiation true false (31 :: a :: b :: c :: d :: w)
  | skip {inSub inCmd : Bool} {x : UInt8} {w : Bytes} (hflag : (inCmd || inSub) = true)
      (hx : PlainOption inCmd x) (h : Negotiation inSub inCmd w) :
      Negotiation inSub inCmd (x :: w)

/-- What `tsymbol` reads before the byte of a symbol, with `escStat` before and after it. -/
inductive Skipped : ℕ → Bytes → ℕ → Prop
  | nil (esc : ℕ) : Skipped esc [] esc
  | options {esc esc' : ℕ} {v w : Bytes} (hv : Negotiation false false v) (h : Skipped esc w esc') :
      Skipped esc (255 :: (v ++ w)) esc'
  | escape {esc esc' : ℕ} {w : Bytes} (h : Skipped 1 w esc') : Skipped esc (27 :: w) esc'
  | bracket {esc' : ℕ} {w : Bytes} (h : Skipped 2 w esc') : Skipped 1 (91 :: w) esc'
  | newline {esc esc' : ℕ} {w : Bytes} (h : Skipped esc w esc') : Skipped esc (10 :: w) esc'

/-- The byte of a symbol. -/
def SymbolByte (esc : ℕ) (x : UInt8) : Prop :=
  x ≠ 255 ∧ x ≠ 27 ∧ ¬ (x = 91 ∧ esc = 1) ∧ x ≠ 10

/-- The bytes of a symbol, all that is read for it. -/
inductive Symbol : Bytes → Control × UInt8 → Prop
  | mk {esc : ℕ} {w : Bytes} {x : UInt8} (hw : Skipped 0 w esc) (hx : SymbolByte esc x) :
      Symbol (w ++ [x]) (symbolOf esc x)

/-- Symbols one after the other. -/
inductive Symbols : Bytes → List (Control × UInt8) → Prop
  | nil : Symbols [] []
  | cons {v w : Bytes} {k : Control × UInt8} {ks : List (Control × UInt8)} (hv : Symbol v k)
      (h : Symbols w ks) : Symbols (v ++ w) (k :: ks)

section

variable {inp v w : Bytes} {t t' : VtyTerm} {x : UInt8} {inSub inCmd : Bool}

theorem reads_append : Reads inp (v ++ w) ↔ Reads inp v ∧ Reads (inp.drop v.length) w := by
  induction v generalizing inp with
  | nil => exact (and_iff_right trivial).symm
  | cons x v ih =>
    show inp.headD 0 = x ∧ Reads inp.tail (v ++ w) ↔
      (inp.headD 0 = x ∧ Reads inp.tail v) ∧ Reads (inp.drop (v.length + 1)) w
    rw [ih, ← List.drop_tail, and_assoc]

/-! ## `toptions` ends -/

/-- The byte that is read, and the terminal behind it. -/
def VtyTerm.pop (t : VtyTerm) : VtyTerm := { t with inp := t.inp.tail }

theorem optionsRound_eq (x : UInt8) (hx : t.inp.headD 0 = x) :
    optionsRound ⟨inSub, inCmd, t⟩ =
      if x = 240 then .inr t.pop
      else if EndsCommand x ∧ inCmd then .inr t.pop
      else if inCmd || decide (StartsCommand x) || (inSub || decide (x = 250)) then
        .inl ⟨inSub || decide (x = 250), inCmd || decide (StartsCommand x),
          if x = 31 then t.pop.windowSize else t.pop⟩
      else .inr (if x = 31 then t.pop.windowSize else t.pop) := by
  subst hx
  rfl

/-- The four kinds of bytes are different ones. -/
theorem StartsCommand.ne (hx : StartsCommand x) :
    x ≠ 240 ∧ x ≠ 250 ∧ x ≠ 31 ∧ ¬ EndsCommand x := by
  refine ⟨?_, ?_, ?_, ?_⟩
  · rintro rfl
    exact absurd hx (by decide)
  · rintro rfl
    exact absurd hx (by decide)
  · rintro rfl
    exact absurd hx (by decide)
  · rintro (rfl | rfl | rfl | rfl) <;> exact absurd hx (by decide)

theorem EndsCommand.ne (hx : EndsCommand x) : x ≠ 240 := by
  rintro rfl
  exact absurd hx (by decide)

theorem optionsRound_se (h : t.inp.headD 0 = 240) :
    optionsRound ⟨inSub, inCmd, t⟩ = .inr t.pop := by
  rw [optionsRound_eq 240 h, if_pos rfl]

theorem optionsRound_option (h : t.inp.headD 0 = x) (hx : EndsCommand x) :
    optionsRound ⟨inSub, true, t⟩ = .inr t.pop := by
  rw [optionsRound_eq x h, if_neg hx.ne, if_pos ⟨hx, rfl⟩]

theorem optionsRound_command (h : t.inp.headD 0 = x) (hx : StartsCommand x) :
    optionsRound ⟨inSub, inCmd, t⟩ = .inl ⟨inSub, true, t.pop⟩ := by
  obtain ⟨hse, hsb, hnaws, hend⟩ := hx.ne
  rw [optionsRound_eq x h, if_neg hse, if_neg fun hc => hend hc.1, if_neg hnaws]
  simp [hx, hsb]

theorem optionsRound_sub (h : t.inp.headD 0 = 250) :
    optionsRound ⟨inSub, inCmd, t⟩ = .inl ⟨true, inCmd, t.pop⟩ := by
  have hend : ¬ EndsCommand 250 := by decide
  have hstart : ¬ StartsCommand 250 := by decide
  rw [optionsRound_eq 250 h, if_neg (by decide), if_neg fun hc => hend hc.1]
  simp [hstart]

/-- A window size outside a command. -/
theorem optionsRound_size (h : t.inp.headD 0 = 31) :
    optionsRound ⟨inSub, false, t⟩ =
      if inSub then .inl ⟨inSub, false, t.pop.windowSize⟩ else .inr t.pop.windowSize := by
  have hstart : ¬ StartsCommand 31 := by decide
  rw [optionsRound_eq 31 h, if_neg (by decide), if_neg fun hc => Bool.false_ne_true hc.2,
    if_pos rfl]
  cases inSub <;> simp [hstart]

/-- A byte that changes no flag. -/
theorem optionsRound_plain (h : t.inp.headD 0 = x) (hx : PlainOption inCmd x) :
    optionsRound ⟨inSub, inCmd, t⟩ =
      if inCmd || inSub then .inl ⟨inSub, inCmd, t.pop⟩ else .inr t.pop := by
  obtain ⟨hse, hsb, hstart, hrest⟩ := hx
  have hend : ¬ (EndsCommand x ∧ inCmd) := by
    rintro ⟨hend, rfl⟩
    exact hrest hend
  have hnaws : x ≠ 31 := by
    rintro rfl
    cases inCmd with
    | true => exact hrest (by decide)
    | false => exact hrest rfl
  rw [optionsRound_eq x h, if_neg hse, if_neg hend, if_neg hnaws]
  simp [hstart, hsb]

/-- The kinds of bytes are all there are. -/
theorem option_cases (x : UInt8) (inCmd : Bool) :
    x = 240 ∨ x = 250 ∨ StartsCommand x ∨ (EndsCommand x ∧ inCmd = true) ∨
      (x = 31 ∧ inCmd = false) ∨ PlainOption inCmd x := by
  unfold PlainOption
  by_cases hse : x = 240
  · exact .inl hse
  by_cases hsb : x = 250
  · exact .inr (.inl hsb)
  by_cases hstart : StartsCommand x
  · exact .inr (.inr (.inl hstart))
  cases inCmd with
  | true =>
    by_cases hend : EndsCommand x
    · exact .inr (.inr (.inr (.inl ⟨hend, rfl⟩)))
    · exact .inr (.inr (.inr (.inr (.inr ⟨hse, hsb, hstart, hend⟩))))
  | false =>
    by_cases hnaws : x = 31
    · exact .inr (.inr (.inr (.inr (.inl ⟨hnaws, rfl⟩))))
    · exact .inr (.inr (.inr (.inr (.inr ⟨hse, hsb, hstart, hnaws⟩))))

theorem inp_windowSize (t : VtyTerm) : t.pop.windowSize.inp = t.inp.drop 5 := by
  show t.inp.tail.drop 4 = _
  rw [List.drop_tail]

theorem tail_five (inp : Bytes) : inp.tail.tail.tail.tail.tail = inp.drop 5 := by
  simp only [← List.drop_one, List.drop_drop]

theorem grows_optionsRound : Loops.Grows fun (_ : ℕ) st => some (optionsRound st) :=
  fun _ _ _ h => h

/-- **A negotiation that is complete is read to its end.** -/
theorem toptions_of_negotiation (h : Negotiation inSub inCmd w) (hw : Reads t.inp w) :
    ∃ t', Loops.Gives (Loops.run fun _ st => some (optionsRound st)) ⟨inSub, inCmd, t⟩ t' ∧
      t'.inp = t.inp.drop w.length := by
  have hdone : ∀ {st : Options} {t' : VtyTerm}, optionsRound st = .inr t' →
      Loops.Gives (Loops.run fun _ st => some (optionsRound st)) st t' := fun h =>
    Loops.gives_run_done ⟨0, congrArg some h⟩
  have hnext : ∀ {st st' : Options} {t' : VtyTerm}, optionsRound st = .inl st' →
      Loops.Gives (Loops.run fun _ st => some (optionsRound st)) st' t' →
      Loops.Gives (Loops.run fun _ st => some (optionsRound st)) st t' := fun h hrest =>
    Loops.gives_run_next grows_optionsRound ⟨0, congrArg some h⟩ hrest
  have hpop : ∀ {t t' : VtyTerm} {n : ℕ}, t'.inp = t.pop.inp.drop n →
      t'.inp = t.inp.drop (n + 1) := fun h => h.trans List.drop_tail
  induction h generalizing t with
  | se inSub inCmd => exact ⟨t.pop, hdone (optionsRound_se hw.1), List.drop_one.symm⟩
  | option inSub hx => exact ⟨t.pop, hdone (optionsRound_option hw.1 hx), List.drop_one.symm⟩
  | command inCmd hx h ih =>
    obtain ⟨t', hrest, hinp⟩ := @ih t.pop hw.2
    exact ⟨t', hnext (optionsRound_command hw.1 hx) hrest, hpop hinp⟩
  | sub inSub h ih =>
    obtain ⟨t', hrest, hinp⟩ := @ih t.pop hw.2
    exact ⟨t', hnext (optionsRound_sub hw.1) hrest, hpop hinp⟩
  | single hx => exact ⟨t.pop, hdone (optionsRound_plain hw.1 hx), List.drop_one.symm⟩
  | size a b c d =>
    exact ⟨t.pop.windowSize, hdone (optionsRound_size hw.1), inp_windowSize t⟩
  | @sizeSub a b c d w h ih =>
    obtain ⟨t', hrest, hinp⟩ := @ih t.pop.windowSize (by
      rw [inp_windowSize, ← tail_five]
      exact hw.2.2.2.2.2)
    refine ⟨t', hnext (optionsRound_size hw.1) hrest, ?_⟩
    rw [hinp, inp_windowSize, List.drop_drop, Nat.add_comm]
    rfl
  | skip hflag hx h ih =>
    obtain ⟨t', hrest, hinp⟩ := @ih t.pop hw.2
    refine ⟨t', hnext ?_ hrest, hpop hinp⟩
    rw [optionsRound_plain hw.1 hx, if_pos hflag]

/-- **Where the loop ends, it has read a complete negotiation.** -/
theorem negotiation_of_toptions {st : Options}
    (h : Loops.Gives (Loops.run fun _ st => some (optionsRound st)) st t') :
    ∃ w, Negotiation st.inSub st.inCmd w ∧ Reads st.term.inp w ∧
      t'.inp = st.term.inp.drop w.length := by
  refine @Loops.gives_run_induction _ _ _ (fun st t' => ∃ w, Negotiation st.inSub st.inCmd w ∧
    Reads st.term.inp w ∧ t'.inp = st.term.inp.drop w.length) ?_ ?_ st t' h
  · rintro ⟨inSub, inCmd, t⟩ t' ⟨_, hround⟩
    have hround := Option.some.inj hround
    have hone : ∀ {x : UInt8}, t.inp.headD 0 = x → Reads t.inp [x] := fun h => ⟨h, trivial⟩
    have hpop : t.pop.inp = t.inp.drop 1 := List.drop_one.symm
    rcases option_cases (t.inp.headD 0) inCmd with hx | hx | hx | ⟨hx, rfl⟩ | ⟨hx, rfl⟩ | hx
    · rw [optionsRound_se hx] at hround
      obtain rfl := Sum.inr.inj hround
      exact ⟨[240], .se inSub inCmd, hone hx, hpop⟩
    · rw [optionsRound_sub hx] at hround
      contradiction
    · rw [optionsRound_command rfl hx] at hround
      contradiction
    · rw [optionsRound_option rfl hx] at hround
      obtain rfl := Sum.inr.inj hround
      exact ⟨_, .option inSub hx, hone rfl, hpop⟩
    · rw [optionsRound_size hx] at hround
      cases inSub with
      | true => contradiction
      | false =>
        obtain rfl := Sum.inr.inj hround
        exact ⟨_, .size _ _ _ _, ⟨hx, rfl, rfl, rfl, rfl, trivial⟩, inp_windowSize t⟩
    · rw [optionsRound_plain rfl hx] at hround
      split at hround
      · contradiction
      · next hflag =>
        obtain rfl := Sum.inr.inj hround
        obtain ⟨rfl, rfl⟩ : inCmd = false ∧ inSub = false := by simpa using hflag
        exact ⟨_, .single hx, hone rfl, hpop⟩
  · rintro ⟨inSub, inCmd, t⟩ st' t' ⟨_, hround⟩ ⟨w, hw, hreads, hinp⟩
    have hround := Option.some.inj hround
    have hpop : t'.inp = t.pop.inp.drop w.length → t'.inp = t.inp.drop (w.length + 1) :=
      fun h => h.trans List.drop_tail
    rcases option_cases (t.inp.headD 0) inCmd with hx | hx | hx | ⟨hx, rfl⟩ | ⟨hx, rfl⟩ | hx
    · rw [optionsRound_se hx] at hround
      contradiction
    · rw [optionsRound_sub hx] at hround
      obtain rfl := Sum.inl.inj hround
      exact ⟨250 :: w, .sub inSub hw, ⟨hx, hreads⟩, hpop hinp⟩
    · rw [optionsRound_command rfl hx] at hround
      obtain rfl := Sum.inl.inj hround
      exact ⟨_ :: w, .command inCmd hx hw, ⟨rfl, hreads⟩, hpop hinp⟩
    · rw [optionsRound_option rfl hx] at hround
      contradiction
    · rw [optionsRound_size hx] at hround
      cases inSub with
      | false => contradiction
      | true =>
        obtain rfl := Sum.inl.inj hround
        rw [inp_windowSize, ← tail_five] at hreads
        refine ⟨_, .sizeSub _ _ _ _ hw, ⟨hx, rfl, rfl, rfl, rfl, hreads⟩, ?_⟩
        rw [hinp, inp_windowSize, List.drop_drop, Nat.add_comm]
        rfl
    · rw [optionsRound_plain rfl hx] at hround
      split at hround
      · next hflag =>
        obtain rfl := Sum.inl.inj hround
        exact ⟨_ :: w, .skip hflag hx hw, ⟨rfl, hreads⟩, hpop hinp⟩
      · contradiction

theorem grows_toptions : Loops.Grows toptions := fun n t t' h =>
  Loops.grows_run grows_optionsRound n ⟨false, false, t⟩ t' h

/-! ## `tsymbol` ends -/

variable {esc esc' : ℕ} {k : Control × UInt8} {ks : List (Control × UInt8)} {line : Option VtyLine}

theorem symbolRound_eq (n : ℕ) (x : UInt8) (hx : t.inp.headD 0 = x) :
    symbolRound n (esc, t) =
      if x = 255 then (toptions n t.pop).map fun t => .inl (esc, t)
      else if x = 27 then some (.inl (1, t.pop))
      else if x = 91 ∧ esc = 1 then some (.inl (2, t.pop))
      else if x = 10 then some (.inl (esc, t.pop))
      else some (.inr (symbolOf esc x, t.pop)) := by
  subst hx
  rfl

theorem symbolRound_symbol (n : ℕ) (h : t.inp.headD 0 = x) (hx : SymbolByte esc x) :
    symbolRound n (esc, t) = some (.inr (symbolOf esc x, t.pop)) := by
  obtain ⟨hiac, hesc, hbracket, hnl⟩ := hx
  rw [symbolRound_eq n x h, if_neg hiac, if_neg hesc, if_neg hbracket, if_neg hnl]

theorem symbolRound_options (n : ℕ) (h : t.inp.headD 0 = 255) :
    symbolRound n (esc, t) = (toptions n t.pop).map fun t => .inl (esc, t) := by
  rw [symbolRound_eq n 255 h, if_pos rfl]

theorem symbolRound_escape (n : ℕ) (h : t.inp.headD 0 = 27) :
    symbolRound n (esc, t) = some (.inl (1, t.pop)) := by
  rw [symbolRound_eq n 27 h]
  rfl

theorem symbolRound_bracket (n : ℕ) (h : t.inp.headD 0 = 91) :
    symbolRound n (1, t) = some (.inl (2, t.pop)) := by
  rw [symbolRound_eq n 91 h]
  rfl

theorem symbolRound_newline (n : ℕ) (h : t.inp.headD 0 = 10) :
    symbolRound n (esc, t) = some (.inl (esc, t.pop)) := by
  have hbracket : ¬ ((10 : UInt8) = 91 ∧ esc = 1) := fun hc => absurd hc.1 (by decide)
  rw [symbolRound_eq n 10 h, if_neg (by decide), if_neg (by decide), if_neg hbracket, if_pos rfl]

theorem symbol_cases (x : UInt8) (esc : ℕ) :
    x = 255 ∨ x = 27 ∨ (x = 91 ∧ esc = 1) ∨ x = 10 ∨ SymbolByte esc x := by
  unfold SymbolByte
  by_cases hiac : x = 255
  · exact .inl hiac
  by_cases hesc : x = 27
  · exact .inr (.inl hesc)
  by_cases hbracket : x = 91 ∧ esc = 1
  · exact .inr (.inr (.inl hbracket))
  by_cases hnl : x = 10
  · exact .inr (.inr (.inr (.inl hnl)))
  · exact .inr (.inr (.inr (.inr ⟨hiac, hesc, hbracket, hnl⟩)))

theorem grows_symbolRound : Loops.Grows symbolRound := by
  rintro n ⟨esc, t⟩ out h
  rcases symbol_cases (t.inp.headD 0) esc with hx | hx | ⟨hx, rfl⟩ | hx | hx
  · rw [symbolRound_options _ hx] at h ⊢
    obtain ⟨t', ht', rfl⟩ := Option.map_eq_some_iff.mp h
    rw [grows_toptions n _ _ ht', Option.map_some]
  · rw [symbolRound_escape _ hx] at h ⊢
    exact h
  · rw [symbolRound_bracket _ hx] at h ⊢
    exact h
  · rw [symbolRound_newline _ hx] at h ⊢
    exact h
  · rw [symbolRound_symbol _ rfl hx] at h ⊢
    exact h

/-- The bytes behind an `IAC`, a negotiation and a symbol. -/
theorem drop_options (v w : Bytes) (x : UInt8) :
    (t.pop.inp.drop v.length).drop (w ++ [x]).length =
      t.inp.drop (255 :: (v ++ w) ++ [x]).length := by
  have hlen : (255 :: (v ++ w) ++ [x]).length = v.length + (w ++ [x]).length + 1 := by
    simp only [List.cons_append, List.length_cons, List.append_assoc, List.length_append]
  rw [List.drop_drop, hlen]
  exact List.drop_tail

/-- **A symbol that is complete is read to its end.** -/
theorem tsymbol_of_skipped (h : Skipped esc w esc') (hx : SymbolByte esc' x)
    (hw : Reads t.inp (w ++ [x])) :
    ∃ t', Loops.Gives (Loops.run symbolRound) (esc, t) (symbolOf esc' x, t') ∧
      t'.inp = t.inp.drop (w ++ [x]).length := by
  have hpop : ∀ {t t' : VtyTerm} {n : ℕ}, t'.inp = t.pop.inp.drop n →
      t'.inp = t.inp.drop (n + 1) := fun h => h.trans List.drop_tail
  induction h generalizing t with
  | nil esc =>
    exact ⟨t.pop, Loops.gives_run_done ⟨0, symbolRound_symbol 0 hw.1 hx⟩, List.drop_one.symm⟩
  | @options esc esc' v w hv h ih =>
    rw [List.cons_append, List.append_assoc] at hw
    obtain ⟨hhead, hrest⟩ := hw
    obtain ⟨hreads, hrest⟩ := reads_append.mp hrest
    obtain ⟨t₁, ⟨n, hopt⟩, hinp₁⟩ := @toptions_of_negotiation v t.pop false false hv hreads
    obtain ⟨t', hsym, hinp⟩ := @ih t₁ hx (by rw [hinp₁]; exact hrest)
    refine ⟨t', Loops.gives_run_next grows_symbolRound ⟨n, ?_⟩ hsym, ?_⟩
    · have hopt' : toptions n t.pop = some t₁ := hopt
      rw [symbolRound_options n hhead, hopt', Option.map_some]
    · rw [hinp, hinp₁, drop_options]
  | escape h ih =>
    obtain ⟨t', hsym, hinp⟩ := @ih t.pop hx hw.2
    exact ⟨t', Loops.gives_run_next grows_symbolRound ⟨0, symbolRound_escape 0 hw.1⟩ hsym,
      hpop hinp⟩
  | bracket h ih =>
    obtain ⟨t', hsym, hinp⟩ := @ih t.pop hx hw.2
    exact ⟨t', Loops.gives_run_next grows_symbolRound ⟨0, symbolRound_bracket 0 hw.1⟩ hsym,
      hpop hinp⟩
  | newline h ih =>
    obtain ⟨t', hsym, hinp⟩ := @ih t.pop hx hw.2
    exact ⟨t', Loops.gives_run_next grows_symbolRound ⟨0, symbolRound_newline 0 hw.1⟩ hsym,
      hpop hinp⟩

/-- **Where the loop ends, it has read a symbol.** -/
theorem skipped_of_tsymbol {st : ℕ × VtyTerm} {out : (Control × UInt8) × VtyTerm}
    (h : Loops.Gives (Loops.run symbolRound) st out) :
    ∃ w esc' x, Skipped st.1 w esc' ∧ SymbolByte esc' x ∧ out.1 = symbolOf esc' x ∧
      Reads st.2.inp (w ++ [x]) ∧ out.2.inp = st.2.inp.drop (w ++ [x]).length := by
  refine @Loops.gives_run_induction _ _ _ (fun st out => ∃ w esc' x, Skipped st.1 w esc' ∧
    SymbolByte esc' x ∧ out.1 = symbolOf esc' x ∧ Reads st.2.inp (w ++ [x]) ∧
    out.2.inp = st.2.inp.drop (w ++ [x]).length) ?_ ?_ st out h
  · rintro ⟨esc, t⟩ out ⟨n, hround⟩
    rcases symbol_cases (t.inp.headD 0) esc with hx | hx | ⟨hx, rfl⟩ | hx | hx
    · rw [symbolRound_options n hx] at hround
      obtain ⟨t', -, heq⟩ := Option.map_eq_some_iff.mp hround
      contradiction
    · rw [symbolRound_escape n hx] at hround
      exact absurd (Option.some.inj hround) Sum.inl_ne_inr
    · rw [symbolRound_bracket n hx] at hround
      exact absurd (Option.some.inj hround) Sum.inl_ne_inr
    · rw [symbolRound_newline n hx] at hround
      exact absurd (Option.some.inj hround) Sum.inl_ne_inr
    · rw [symbolRound_symbol n rfl hx] at hround
      obtain rfl := Sum.inr.inj (Option.some.inj hround)
      exact ⟨[], esc, _, .nil esc, hx, rfl, ⟨rfl, trivial⟩, List.drop_one.symm⟩
  · rintro ⟨esc, t⟩ st' out ⟨n, hround⟩ ⟨w, esc', x, hw, hx', hout, hreads, hinp⟩
    have hpop : ∀ {n : ℕ}, out.2.inp = t.pop.inp.drop n → out.2.inp = t.inp.drop (n + 1) :=
      fun h => h.trans List.drop_tail
    rcases symbol_cases (t.inp.headD 0) esc with hx | hx | ⟨hx, rfl⟩ | hx | hx
    · rw [symbolRound_options n hx] at hround
      obtain ⟨t₁, hopt, heq⟩ := Option.map_eq_some_iff.mp hround
      obtain rfl := Sum.inl.inj heq
      obtain ⟨v, hv, hreads₁, hinp₁⟩ := @negotiation_of_toptions t₁ ⟨false, false, t.pop⟩ ⟨n, hopt⟩
      refine ⟨255 :: (v ++ w), esc', x, .options hv hw, hx', hout, ?_, ?_⟩
      · rw [List.cons_append, List.append_assoc]
        refine ⟨hx, reads_append.mpr ⟨hreads₁, ?_⟩⟩
        rw [hinp₁] at hreads
        exact hreads
      · rw [hinp, hinp₁, drop_options]
    · rw [symbolRound_escape n hx] at hround
      obtain rfl := Sum.inl.inj (Option.some.inj hround)
      exact ⟨27 :: w, esc', x, .escape hw, hx', hout, ⟨hx, hreads⟩, hpop hinp⟩
    · rw [symbolRound_bracket n hx] at hround
      obtain rfl := Sum.inl.inj (Option.some.inj hround)
      exact ⟨91 :: w, esc', x, .bracket hw, hx', hout, ⟨hx, hreads⟩, hpop hinp⟩
    · rw [symbolRound_newline n hx] at hround
      obtain rfl := Sum.inl.inj (Option.some.inj hround)
      exact ⟨10 :: w, esc', x, .newline hw, hx', hout, ⟨hx, hreads⟩, hpop hinp⟩
    · rw [symbolRound_symbol n rfl hx] at hround
      exact absurd (Option.some.inj hround) Sum.inr_ne_inl

theorem tsymbol_of_symbol (h : Symbol w k) (hw : Reads t.inp w) :
    ∃ t', Loops.Gives tsymbol t (k, t') ∧ t'.inp = t.inp.drop w.length := by
  cases h with
  | mk hskip hx => exact tsymbol_of_skipped hskip hx hw

theorem symbol_of_tsymbol (h : Loops.Gives tsymbol t (k, t')) :
    ∃ w, Symbol w k ∧ Reads t.inp w ∧ t'.inp = t.inp.drop w.length := by
  obtain ⟨w, esc, x, hskip, hx, rfl, hreads, hinp⟩ := skipped_of_tsymbol h
  exact ⟨_, .mk hskip hx, hreads, hinp⟩

/-! ## `treadstr` and `readstr` end -/

theorem grows_tsymbol : Loops.Grows tsymbol := fun n t out h =>
  Loops.grows_run grows_symbolRound n (0, t) out h

theorem grows_readRound : Loops.Grows readRound := grows_tsymbol.map _

theorem grows_treadstr : Loops.Grows treadstr := Loops.grows_run grows_readRound

theorem grows_lineRound : Loops.Grows lineRound := grows_treadstr.map _

/-- One round of `treadstr`. -/
theorem gives_readRound_iff {next : VtyTerm ⊕ Control × VtyTerm} :
    Loops.Gives readRound t next ↔ ∃ k t', Loops.Gives tsymbol t (k, t') ∧
      (match returned k.1 with
        | some key => .inr (key, t')
        | none => .inl (t'.edit k)) = next := by
  refine Iff.trans Loops.gives_map_iff ?_
  constructor
  · rintro ⟨⟨k, t'⟩, hsym, hnext⟩
    exact ⟨k, t', hsym, hnext⟩
  · rintro ⟨k, t', hsym, hnext⟩
    exact ⟨(k, t'), hsym, hnext⟩

/-- One round of `readstr`. -/
theorem gives_lineRound_iff {next : VtyTerm ⊕ VtyTerm} :
    Loops.Gives lineRound t next ↔ ∃ key t', Loops.Gives treadstr t (key, t') ∧
      (if key = .executeCommand then .inr t' else .inl t') = next := by
  refine Iff.trans Loops.gives_map_iff ?_
  constructor
  · rintro ⟨⟨key, t'⟩, hread, hnext⟩
    exact ⟨key, t', hread, hnext⟩
  · rintro ⟨key, t', hread, hnext⟩
    exact ⟨(key, t'), hread, hnext⟩

/-- Editing reads nothing. -/
theorem inp_edit (t : VtyTerm) (k : Control × UInt8) : (t.edit k).inp = t.inp := by
  unfold VtyTerm.edit
  split
  · rfl
  · rfl

theorem returned_eq_execute {key : Control} :
    returned key = some .executeCommand ↔ key = .executeCommand := by
  cases key <;> decide

/-- A symbol that `treadstr` does not return is followed by the next one. -/
theorem treadstr_next {key : Control} {t₁ t₂ : VtyTerm} (hsym : Loops.Gives tsymbol t (k, t₁))
    (hkey : returned k.1 = none) (h : Loops.Gives treadstr (t₁.edit k) (key, t₂)) :
    Loops.Gives treadstr t (key, t₂) := by
  refine Loops.gives_run_next grows_readRound (gives_readRound_iff.mpr ⟨k, t₁, hsym, ?_⟩) h
  rw [hkey]

theorem treadstr_done {key : Control} {t₁ : VtyTerm} (hsym : Loops.Gives tsymbol t (k, t₁))
    (hkey : returned k.1 = some key) : Loops.Gives treadstr t (key, t₁) := by
  refine Loops.gives_run_done (gives_readRound_iff.mpr ⟨k, t₁, hsym, ?_⟩)
  rw [hkey]

/-- **A key that `treadstr` returns is reached.** -/
theorem treadstr_of_symbols (h : Symbols w ks) (hw : Reads t.inp w)
    (hkey : ∃ k ∈ ks, (returned k.1).isSome) : ∃ out, Loops.Gives treadstr t out := by
  induction h generalizing t with
  | nil =>
    obtain ⟨k, hk, -⟩ := hkey
    contradiction
  | @cons v w k ks hv h ih =>
    obtain ⟨hreads, hrest⟩ := reads_append.mp hw
    obtain ⟨t₁, hsym, hinp⟩ := tsymbol_of_symbol hv hreads
    cases hret : returned k.1 with
    | some key => exact ⟨_, treadstr_done hsym hret⟩
    | none =>
      obtain ⟨k', hk', hsome⟩ := hkey
      rcases List.mem_cons.mp hk' with rfl | hk'
      · rw [hret] at hsome
        contradiction
      · obtain ⟨⟨key, t₂⟩, hread⟩ := @ih (t₁.edit k) (by rw [inp_edit, hinp]; exact hrest)
          ⟨k', hk', hsome⟩
        exact ⟨_, treadstr_next hsym hret hread⟩

/-- **Where `treadstr` returns, it has read symbols up to the key that it returns.** -/
theorem symbols_of_treadstr {out : Control × VtyTerm} (h : Loops.Gives treadstr t out) :
    ∃ w ks k, Symbols w (ks ++ [k]) ∧ returned k.1 = some out.1 ∧ Reads t.inp w ∧
      out.2.inp = t.inp.drop w.length := by
  refine @Loops.gives_run_induction _ _ _ (fun t out => ∃ w ks k, Symbols w (ks ++ [k]) ∧
    returned k.1 = some out.1 ∧ Reads t.inp w ∧ out.2.inp = t.inp.drop w.length) ?_ ?_ t out h
  · intro t out hround
    obtain ⟨k, t', hsym, hnext⟩ := gives_readRound_iff.mp hround
    obtain ⟨w, hw, hreads, hinp⟩ := symbol_of_tsymbol hsym
    cases hret : returned k.1 with
    | none =>
      rw [hret] at hnext
      exact absurd hnext Sum.inl_ne_inr
    | some key =>
      rw [hret] at hnext
      obtain rfl := Sum.inr.inj hnext
      refine ⟨w, [], k, ?_, hret, hreads, hinp⟩
      have hone := Symbols.cons hw .nil
      rwa [List.append_nil] at hone
  · rintro t t₂ out hround ⟨w, ks, k', hks, hret', hreads', hinp'⟩
    obtain ⟨k, t', hsym, hnext⟩ := gives_readRound_iff.mp hround
    obtain ⟨v, hv, hreads, hinp⟩ := symbol_of_tsymbol hsym
    cases hret : returned k.1 with
    | some key =>
      rw [hret] at hnext
      exact absurd hnext Sum.inr_ne_inl
    | none =>
      rw [hret] at hnext
      obtain rfl := Sum.inl.inj hnext
      rw [inp_edit, hinp] at hreads' hinp'
      refine ⟨v ++ w, k :: ks, k', .cons hv hks, hret', reads_append.mpr ⟨hreads, hreads'⟩, ?_⟩
      rw [hinp', List.drop_drop, List.length_append]

/-- The end of `readstr` as its loop goes on behind a key. -/
theorem lineRound_of_treadstr {key : Control} {t₁ : VtyTerm}
    (hread : Loops.Gives treadstr t (key, t₁))
    (h : key = .executeCommand ∨ ∃ t', Loops.Gives (Loops.run lineRound) t₁ t') :
    ∃ t', Loops.Gives (Loops.run lineRound) t t' := by
  by_cases hkey : key = .executeCommand
  · exact ⟨t₁, Loops.gives_run_done (gives_lineRound_iff.mpr ⟨key, t₁, hread, if_pos hkey⟩)⟩
  · obtain ⟨t', hrest⟩ := h.resolve_left hkey
    exact ⟨t', Loops.gives_run_next grows_lineRound
      (gives_lineRound_iff.mpr ⟨key, t₁, hread, if_neg hkey⟩) hrest⟩

/-- The key that executes the command is reached: by the `treadstr` that is running, or by a
later one. -/
theorem lineRound_of_symbols (h : Symbols w ks) (hw : Reads t.inp w)
    (hkey : ∃ k ∈ ks, k.1 = .executeCommand) :
    ∃ key t₁, Loops.Gives treadstr t (key, t₁) ∧
      (key = .executeCommand ∨ ∃ t', Loops.Gives (Loops.run lineRound) t₁ t') := by
  induction h generalizing t with
  | nil =>
    obtain ⟨k, hk, -⟩ := hkey
    contradiction
  | @cons v w k ks hv h ih =>
    obtain ⟨hreads, hrest⟩ := reads_append.mp hw
    obtain ⟨t₁, hsym, hinp⟩ := tsymbol_of_symbol hv hreads
    by_cases hexec : k.1 = .executeCommand
    · exact ⟨_, t₁, treadstr_done hsym (returned_eq_execute.mpr hexec), .inl rfl⟩
    · have htail : ∃ k' ∈ ks, k'.1 = .executeCommand := by
        obtain ⟨k', hk', hexec'⟩ := hkey
        rcases List.mem_cons.mp hk' with rfl | hk'
        · contradiction
        · exact ⟨k', hk', hexec'⟩
      cases hret : returned k.1 with
      | some key =>
        obtain ⟨key', t₂, hread, hmore⟩ := @ih t₁ (by rw [hinp]; exact hrest) htail
        exact ⟨key, t₁, treadstr_done hsym hret, .inr (lineRound_of_treadstr hread hmore)⟩
      | none =>
        obtain ⟨key', t₂, hread, hmore⟩ := @ih (t₁.edit k) (by rw [inp_edit, hinp]; exact hrest)
          htail
        exact ⟨key', t₂, treadstr_next hsym hret hread, hmore⟩

theorem Symbols.append {ls : List (Control × UInt8)} (hv : Symbols v ks) (hw : Symbols w ls) :
    Symbols (v ++ w) (ks ++ ls) := by
  induction hv with
  | nil => exact hw
  | cons hk h ih =>
    rw [List.append_assoc]
    exact .cons hk ih

/-- **Where `readstr` returns, it has read symbols up to the one that executes the command.** -/
theorem symbols_of_lineRound {t' : VtyTerm} (h : Loops.Gives (Loops.run lineRound) t t') :
    ∃ w ks, Symbols w ks ∧ Reads t.inp w ∧ ∃ k ∈ ks, k.1 = .executeCommand := by
  refine @Loops.gives_run_induction _ _ _ (fun t t' => ∃ w ks, Symbols w ks ∧ Reads t.inp w ∧
    ∃ k ∈ ks, k.1 = .executeCommand) ?_ ?_ t t' h
  · intro t t' hround
    obtain ⟨key, t₁, hread, hnext⟩ := gives_lineRound_iff.mp hround
    obtain ⟨w, ks, k, hks, hret, hreads, -⟩ := symbols_of_treadstr hread
    split at hnext
    · next hkey =>
      rw [hkey] at hret
      exact ⟨w, ks ++ [k], hks, hreads, k, by simp, returned_eq_execute.mp hret⟩
    · exact absurd hnext Sum.inl_ne_inr
  · rintro t t₂ t' hround ⟨w, ls, hls, hreads', k', hk', hexec⟩
    obtain ⟨key, t₁, hread, hnext⟩ := gives_lineRound_iff.mp hround
    obtain ⟨v, ks, k, hks, -, hreads, hinp⟩ := symbols_of_treadstr hread
    split at hnext
    · exact absurd hnext Sum.inr_ne_inl
    · obtain rfl := Sum.inl.inj hnext
      rw [hinp] at hreads'
      exact ⟨v ++ w, (ks ++ [k]) ++ ls, hks.append hls, reads_append.mpr ⟨hreads, hreads'⟩, k',
        List.mem_append_right _ hk', hexec⟩

end

/-- **When the loops end**, for everything that may be received: `toptions` behind a complete
negotiation, `tsymbol` behind a complete symbol, `treadstr` behind symbols with a key that it
returns, and `readstr` behind symbols with the one that executes the command. -/
theorem vtyTerm_ends_iff (t : VtyTerm) :
    ((∃ t', Loops.Gives toptions t t') ↔ ∃ w, Reads t.inp w ∧ Negotiation false false w) ∧
    ((∃ out, Loops.Gives tsymbol t out) ↔ ∃ w k, Reads t.inp w ∧ Symbol w k) ∧
    ((∃ out, Loops.Gives treadstr t out) ↔
      ∃ w ks, Reads t.inp w ∧ Symbols w ks ∧ ∃ k ∈ ks, (returned k.1).isSome) ∧
    ((∃ t', Loops.Gives readstr t t') ↔
      ∃ w ks, Reads t.inp w ∧ Symbols w ks ∧ ∃ k ∈ ks, k.1 = .executeCommand) := by
  refine ⟨⟨?_, ?_⟩, ⟨?_, ?_⟩, ⟨?_, ?_⟩, ⟨?_, ?_⟩⟩
  · rintro ⟨t', h⟩
    obtain ⟨w, hw, hreads, -⟩ := @negotiation_of_toptions t' ⟨false, false, t⟩ h
    exact ⟨w, hreads, hw⟩
  · rintro ⟨w, hreads, hw⟩
    obtain ⟨t', h, -⟩ := toptions_of_negotiation hw hreads
    exact ⟨t', h⟩
  · rintro ⟨⟨k, t'⟩, h⟩
    obtain ⟨w, hw, hreads, -⟩ := symbol_of_tsymbol h
    exact ⟨w, k, hreads, hw⟩
  · rintro ⟨w, k, hreads, hw⟩
    obtain ⟨t', h, -⟩ := tsymbol_of_symbol hw hreads
    exact ⟨(k, t'), h⟩
  · rintro ⟨out, h⟩
    obtain ⟨w, ks, k, hks, hret, hreads, -⟩ := symbols_of_treadstr h
    exact ⟨w, ks ++ [k], hreads, hks, k, by simp, by rw [hret]; rfl⟩
  · rintro ⟨w, ks, hreads, hks, hkey⟩
    exact treadstr_of_symbols hks hreads hkey
  · rintro ⟨t', h⟩
    obtain ⟨w, ks, hks, hreads, hkey⟩ := symbols_of_lineRound h
    exact ⟨w, ks, hreads, hks, hkey⟩
  · rintro ⟨w, ks, hreads, hks, hkey⟩
    obtain ⟨key, t₁, hread, hmore⟩ :=
      @lineRound_of_symbols w { t with line := lineEditor.init } ks hks hreads hkey
    exact lineRound_of_treadstr hread hmore

/-! ## Nothing but zeros -/

section

variable {inp w : Bytes} {t : VtyTerm} {x : UInt8} {k : Control × UInt8}
  {ks : List (Control × UInt8)}

/-- What is read has been received, or it is a zero. -/
theorem mem_of_reads (h : Reads inp w) (hx : x ∈ w) (hx0 : x ≠ 0) : x ∈ inp := by
  induction w generalizing inp with
  | nil => contradiction
  | cons y w ih =>
    obtain ⟨hhead, hrest⟩ := h
    cases inp with
    | nil =>
      rcases List.mem_cons.mp hx with rfl | hx
      · exact absurd hhead.symm hx0
      · exact absurd (ih hrest hx) List.not_mem_nil
    | cons z inp =>
      rcases List.mem_cons.mp hx with rfl | hx
      · exact List.mem_cons.mpr (.inl hhead.symm)
      · exact List.mem_cons_of_mem z (ih hrest hx)

theorem symbolOf_execute {esc : ℕ} (h : (symbolOf esc x).1 = .executeCommand) : x = 13 := by
  have hall : ∀ (arrow : Bool) (n : Fin 256),
      (symbolOf (if arrow then 2 else 0) (UInt8.ofFin n)).1 = .executeCommand →
        UInt8.ofFin n = 13 := by decide +kernel
  by_cases hesc : esc = 2
  · subst hesc
    exact hall true x.toFin h
  · have hsame : symbolOf esc x = symbolOf 0 x := by
      unfold symbolOf
      simp only [if_neg hesc]
      rfl
    rw [hsame] at h
    exact hall false x.toFin h

theorem Symbols.mem_execute (h : Symbols w ks) (hkey : ∃ k ∈ ks, k.1 = .executeCommand) :
    13 ∈ w := by
  induction h with
  | nil =>
    obtain ⟨k, hk, -⟩ := hkey
    contradiction
  | cons hv h ih =>
    obtain ⟨k', hk', hexec⟩ := hkey
    rcases List.mem_cons.mp hk' with rfl | hk'
    · cases hv with
      | mk hskip hx =>
        obtain rfl := symbolOf_execute hexec
        simp
    · exact List.mem_append_right _ (ih ⟨k', hk', hexec⟩)

/-- **Without a return in what is received, `readstr` does not end.** -/
theorem readstr_not_ends (h : 13 ∉ t.inp) : ¬ ∃ t', Loops.Gives readstr t t' := by
  rintro ⟨t', hread⟩
  obtain ⟨w, ks, hks, hreads, hkey⟩ := symbols_of_lineRound hread
  exact h (mem_of_reads hreads (hks.mem_execute hkey) (by decide))

end

/-- A terminal that sends nothing more. -/
def silent : VtyTerm := ⟨[], none, 0, 0⟩

/-- At the end of the file `treadstr` goes on for ever, and so does `toptions` behind `WILL`. -/
theorem treadstr_loops : (¬ ∃ out, Loops.Gives treadstr silent out) ∧
    ¬ ∃ t', Loops.Gives toptions { silent with inp := [251] } t' := by
  constructor
  · rintro ⟨out, n, hn⟩
    have hround : ∀ n, readRound (n + 1) silent = some (.inl silent) := fun n => rfl
    induction n with
    | zero => contradiction
    | succ n ih =>
      cases n with
      | zero => contradiction
      | succ n =>
        unfold treadstr Loops.run at hn
        rw [hround n] at hn
        exact ih hn
  · rintro ⟨t', n, hn⟩
    have hstay : ∀ n, Loops.run (fun _ st => some (optionsRound st)) n ⟨false, true, silent⟩ =
        none := by
      intro n
      induction n with
      | zero => rfl
      | succ n ih => exact ih
    cases n with
    | zero => contradiction
    | succ n =>
      have hnone : toptions (n + 1) { silent with inp := [251] } = none := hstay n
      rw [hnone] at hn
      contradiction

end Tacppd
