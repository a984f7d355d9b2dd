/-
# The tokens of an SQL statement

A general development: a statement is read byte by byte into words, symbols and string
literals.  In a literal a doubled quote stands for one quote; whether a backslash
escapes the byte after it is a setting of the server.

Quoted identifiers, dollar quotes and bracketed comments are read as symbols and words.

A text between quotes is read back as one literal with this text exactly when it has
no quote in it, and no backslash where backslashes escape (`lexFrom_lit_iff`); a
literal is always shorter than what it is read from (`length_lt_cap`).
-/
import Mathlib.Data.List.Basic

namespace Sql

/-! ## The lexer -/

inductive Token
  | word (s : List UInt8)
  | sym (c : UInt8)
  | lit (s : List UInt8)
  deriving DecidableEq, Repr

def quote : UInt8 := 39

def backslash : UInt8 := 92

def dash : UInt8 := 45

def newline : UInt8 := 10

/-- Space and the control characters that count as space. -/
def isSpace (c : UInt8) : Bool := c == 32 || (decide (9 ≤ c) && decide (c ≤ 13))

/-- Letters, digits, the underscore, and every byte outside ASCII. -/
def isWord (c : UInt8) : Bool :=
  (decide (65 ≤ c) && decide (c ≤ 90)) || (decide (97 ≤ c) && decide (c ≤ 122)) ||
    (decide (48 ≤ c) && decide (c ≤ 57)) || c == 95 || decide (128 ≤ c)

/-- Where the lexer is, with what it has read of a token. -/
inductive Mode
  | gap
  | word (s : List UInt8)
  | lit (s : List UInt8)
  /-- After the backslash in a literal. -/
  | escape (s : List UInt8)
  /-- After a quote in a literal: its end, unless another quote follows. -/
  | closing (s : List UInt8)
  /-- After one dash; two begin a comment. -/
  | dash
  | comment
  deriving DecidableEq, Repr

/-- The first byte of a token. -/
def start (c : UInt8) : Mode × List Token :=
  if c = quote then (.lit [], [])
  else if isSpace c then (.gap, [])
  else if isWord c then (.word [c], [])
  else if c = dash then (.dash, [])
  else (.gap, [.sym c])

/-- One byte.  With `esc` a backslash escapes; it says what an escaped byte stands for. -/
def step (esc : Option (UInt8 → UInt8)) (m : Mode) (c : UInt8) : Mode × List Token :=
  match m with
  | .gap => start c
  | .word s =>
    if isWord c then (.word (s ++ [c]), []) else ((start c).1, .word s :: (start c).2)
  | .lit s =>
    if c = quote then (.closing s, [])
    else if c = backslash ∧ esc.isSome then (.escape s, [])
    else (.lit (s ++ [c]), [])
  | .escape s => (.lit (s ++ [(esc.getD id) c]), [])
  | .closing s =>
    if c = quote then (.lit (s ++ [c]), []) else ((start c).1, .lit s :: (start c).2)
  | .dash => if c = dash then (.comment, []) else ((start c).1, .sym dash :: (start c).2)
  | .comment => if c = newline then (.gap, []) else (.comment, [])

/-- The end of the statement; nothing for a literal that is still open. -/
def finish : Mode → Option (List Token)
  | .gap => some []
  | .word s => some [.word s]
  | .lit _ => none
  | .escape _ => none
  | .closing s => some [.lit s]
  | .dash => some [.sym dash]
  | .comment => some []

variable (esc : Option (UInt8 → UInt8))

/-- The tokens of the rest of a statement. -/
def lexFrom (m : Mode) : List UInt8 → Option (List Token)
  | [] => finish m
  | c :: s => (lexFrom (step esc m c).1 s).map ((step esc m c).2 ++ ·)

/-- The tokens of a statement. -/
def lex (s : List UInt8) : Option (List Token) := lexFrom esc .gap s

/-- Where the lexer is after a part of a statement, and the tokens it has read. -/
def run (m : Mode) : List UInt8 → Mode × List Token
  | [] => (m, [])
  | c :: s => ((run (step esc m c).1 s).1, (step esc m c).2 ++ (run (step esc m c).1 s).2)

theorem lexFrom_append (m : Mode) (s t : List UInt8) :
    lexFrom esc m (s ++ t) =
      (lexFrom esc (run esc m s).1 t).map ((run esc m s).2 ++ ·) := by
  induction s generalizing m with
  | nil => simp [run]
  | cons c s ih =>
    rw [List.cons_append, lexFrom, ih, run, Option.map_map]
    congr 1
    funext ts
    simp

theorem run_append (m : Mode) (s t : List UInt8) :
    run esc m (s ++ t) = ((run esc (run esc m s).1 t).1,
      (run esc m s).2 ++ (run esc (run esc m s).1 t).2) := by
  induction s generalizing m with
  | nil => simp [run]
  | cons c s ih => rw [List.cons_append, run, ih, run, List.append_assoc]

/-! ## Outside literals -/

/-- No literal has been begun. -/
def Mode.Outside : Mode → Prop
  | .gap => True
  | .word _ => True
  | .lit _ => False
  | .escape _ => False
  | .closing _ => False
  | .dash => True
  | .comment => True

theorem start_outside {c : UInt8} (h : c ≠ quote) : (start c).1.Outside := by
  rw [start, if_neg h]
  repeat' split
  all_goals trivial

/-- Outside of a literal only a quote begins one, and backslashes do not escape. -/
theorem step_outside {m : Mode} (hm : m.Outside) {c : UInt8} (h : c ≠ quote) :
    step esc m c = step none m c ∧ (step none m c).1.Outside := by
  have hstart := start_outside h
  cases m with
  | gap => exact ⟨rfl, hstart⟩
  | word s =>
    refine ⟨rfl, ?_⟩
    rw [step]
    split
    · trivial
    · exact hstart
  | lit s => exact hm.elim
  | escape s => exact hm.elim
  | closing s => exact hm.elim
  | dash =>
    refine ⟨rfl, ?_⟩
    rw [step]
    split
    · trivial
    · exact hstart
  | comment =>
    refine ⟨rfl, ?_⟩
    rw [step]
    split <;> trivial

/-- **A part without quotes** is read the same way whether backslashes escape or not. -/
theorem run_of_not_mem {m : Mode} (hm : m.Outside) {s : List UInt8} (h : quote ∉ s) :
    run esc m s = run none m s := by
  induction s generalizing m with
  | nil => rfl
  | cons c s ih =>
    rw [List.mem_cons, not_or] at h
    obtain ⟨hc, hs⟩ := h
    obtain ⟨hstep, hout⟩ := step_outside esc hm (Ne.symm hc)
    rw [run, run, hstep, ih hout hs]

/-! ## Literals -/

/-- What a literal of the rest of a statement is shorter than. -/
def cap : Mode → ℕ → ℕ
  | .lit s, n => s.length + n
  | .escape s, n => s.length + n
  | .closing s, n => s.length + (n - 1) + 1
  | .gap, n => n
  | .word _, n => n
  | .dash, n => n
  | .comment, n => n

/-- The first byte of a token makes no literal yet. -/
theorem start_cases (c : UInt8) :
    (∀ n, cap (start c).1 n = n) ∧ ∀ x, Token.lit x ∉ (start c).2 := by
  rw [start]
  repeat' split
  all_goals exact ⟨fun n => by simp [cap], fun x => by simp⟩

/-- One byte makes the bound smaller by no more than itself. -/
theorem cap_step (m : Mode) (c : UInt8) (n : ℕ) :
    cap (step esc m c).1 n ≤ cap m (n + 1) ∧
      ∀ x, Token.lit x ∈ (step esc m c).2 → x.length < cap m (n + 1) := by
  obtain ⟨hcap, hlit⟩ := start_cases c
  cases m with
  | gap => exact ⟨by rw [step, hcap, cap]; omega, fun x hx => absurd hx (hlit x)⟩
  | word s =>
    rw [step]
    split
    · exact ⟨by simp [cap], fun x hx => by simp at hx⟩
    · exact ⟨by rw [hcap]; simp [cap], fun x hx => absurd hx (by simp [hlit])⟩
  | lit s =>
    rw [step]
    split
    · exact ⟨by simp only [cap]; omega, fun x hx => by simp at hx⟩
    · split
      · exact ⟨by simp only [cap]; omega, fun x hx => by simp at hx⟩
      · refine ⟨?_, fun x hx => by simp at hx⟩
        simp only [cap, List.length_append, List.length_singleton]
        omega
  | escape s =>
    refine ⟨?_, fun x hx => by simp [step] at hx⟩
    simp only [step, cap, List.length_append, List.length_singleton]
    omega
  | closing s =>
    rw [step]
    split
    · refine ⟨?_, fun x hx => by simp at hx⟩
      simp only [cap, List.length_append, List.length_singleton]
      omega
    · refine ⟨by rw [hcap]; simp only [cap]; omega, fun x hx => ?_⟩
      rcases List.mem_cons.mp hx with hx | hx
      · obtain rfl := Token.lit.inj hx
        simp only [cap]
        omega
      · exact absurd hx (hlit x)
  | dash =>
    rw [step]
    split
    · exact ⟨by simp [cap], fun x hx => by simp at hx⟩
    · exact ⟨by rw [hcap]; simp [cap], fun x hx => absurd hx (by simp [hlit])⟩
  | comment =>
    rw [step]
    split
    · exact ⟨by simp [cap], fun x hx => by simp at hx⟩
    · exact ⟨by simp [cap], fun x hx => by simp at hx⟩

/-- **A literal is shorter than what it is read from**, quotes included. -/
theorem length_lt_cap {m : Mode} {s : List UInt8} {ts : List Token}
    (h : lexFrom esc m s = some ts) {x : List UInt8} (hx : Token.lit x ∈ ts) :
    x.length < cap m s.length := by
  induction s generalizing m ts with
  | nil =>
    cases m <;> simp only [lexFrom, finish, Option.some.injEq, reduceCtorEq] at h <;> subst h
    case closing s =>
      obtain rfl := Token.lit.inj (List.mem_singleton.mp hx)
      simp [cap]
    all_goals simp at hx
  | cons c s ih =>
    rw [lexFrom, Option.map_eq_some_iff] at h
    obtain ⟨ts', hts', rfl⟩ := h
    obtain ⟨hcap, hlit⟩ := cap_step esc m c s.length
    rcases List.mem_append.mp hx with hx | hx
    · exact hlit x hx
    · exact Nat.lt_of_lt_of_le (ih hts' hx) hcap

/-- What is too short for a literal is not read as this literal. -/
theorem lexFrom_ne_lit {m : Mode} {s x : List UInt8} (h : cap m s.length ≤ x.length) :
    lexFrom esc m s ≠ some [.lit x] := by
  intro hlex
  have hlen := length_lt_cap esc hlex (List.mem_singleton_self _)
  omega

/-- The bytes that do not stand for themselves in a literal. -/
def Plain (s : List UInt8) : Prop := quote ∉ s ∧ (esc.isSome → backslash ∉ s)

theorem plain_cons {c : UInt8} {s : List UInt8} :
    Plain esc (c :: s) ↔ (c ≠ quote ∧ ¬ (c = backslash ∧ esc.isSome)) ∧ Plain esc s := by
  simp only [Plain, List.mem_cons, not_or]
  tauto

/-- **A text between quotes** is one literal with this text exactly when every byte of it
stands for itself. -/
theorem lexFrom_lit_iff (v s : List UInt8) :
    lexFrom esc (.lit v) (s ++ [quote]) = some [.lit (v ++ s)] ↔ Plain esc s := by
  induction s generalizing v with
  | nil => simp [lexFrom, step, finish, Plain]
  | cons c s ih =>
    rw [plain_cons, List.cons_append, lexFrom, step]
    by_cases hq : c = quote
    · -- the literal ends here, or goes on with one byte for two
      rw [if_pos hq]
      simp only [List.nil_append, Option.map_id_fun', id_eq]
      have hshort : cap (.closing v) (s ++ [quote]).length ≤ (v ++ c :: s).length := by
        simp only [cap, List.length_append, List.length_cons, List.length_nil]
        omega
      exact iff_of_false (lexFrom_ne_lit esc hshort) fun h => h.1.1 hq
    · rw [if_neg hq]
      by_cases hb : c = backslash ∧ esc.isSome
      · rw [if_pos hb]
        simp only [List.nil_append, Option.map_id_fun', id_eq]
        have hshort : cap (.escape v) (s ++ [quote]).length ≤ (v ++ c :: s).length := by
          simp only [cap, List.length_append, List.length_cons, List.length_nil]
          omega
        exact iff_of_false (lexFrom_ne_lit esc hshort) fun h => h.1.2 hb
      · rw [if_neg hb, and_iff_right ⟨hq, hb⟩, ← ih (v ++ [c]), List.append_assoc]
        simp

/-- What is read to its end inside a literal, with the closing quote behind it. -/
theorem lexFrom_of_run {u x v : List UInt8} (h : run esc (.lit u) x = (.lit v, [])) :
    lexFrom esc (.lit u) (x ++ [quote]) = some [.lit v] := by
  rw [lexFrom_append, h]
  simp [lexFrom, step, finish]

/-- **The inside of a literal** stands for no more bytes than it has, and for itself exactly
when every byte of it does. -/
theorem run_lit {u x v : List UInt8} (h : run esc (.lit u) x = (.lit v, [])) :
    v.length ≤ u.length + x.length ∧ (v = u ++ x ↔ Plain esc x) := by
  have hlex := lexFrom_of_run esc h
  constructor
  · have hlen := length_lt_cap esc hlex (List.mem_singleton_self _)
    simp only [cap, List.length_append, List.length_singleton] at hlen
    omega
  · rw [← lexFrom_lit_iff esc u x, hlex]
    simp

theorem run_lit_of_plain (u : List UInt8) {x : List UInt8} (h : Plain esc x) :
    run esc (.lit u) x = (.lit (u ++ x), []) := by
  induction x generalizing u with
  | nil => simp [run]
  | cons c x ih =>
    obtain ⟨⟨hq, hb⟩, hx⟩ := (plain_cons esc).mp h
    rw [run, step, if_neg hq, if_neg hb, ih (u ++ [c]) hx, List.append_assoc]
    rfl

end Sql
