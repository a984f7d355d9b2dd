/-
# Sections of the configuration

The saved configuration is read back through the functions of the command line, line by line: a
line of the node `config` may open the node of an object, in which the lines up to `exit` are
commands of that object.

`step_enter`, `step_inner` and `step_exit` say what the three kinds of lines do that the program
writes, and `replay_invariant` what the reading of any text keeps.
-/
import Tacppd.Command
import Tacppd.Lib.Records

namespace Tacppd

/-! ## Sections -/

/-- The commands for one kind of object: those of the node `config` for it, one of which is a node
of its own, with the commands in that node, and `applycf`, which is called with a command, its
parameters and those of its node.  A command `none` is the `exit` of a node. -/
structure ConfSection (σ ι : Type) where
  config : List (List MaskWord × Option ι)
  node : ι
  inner : List (List MaskWord × Option ι)
  applycf : ι → List Bytes → List Bytes → σ → Option σ

/-- One line, outside of the node or inside it, where the parameters of the node are kept. -/
def ConfSection.step [LongWidth] {σ ι : Type} [DecidableEq ι] (S : ConfSection σ ι) :
    Option (List Bytes) × σ → Bytes → Option (Option (List Bytes) × σ)
  | (up, s), line =>
    match takeLine (if up.isNone then S.config else S.inner) (split line) with
    | none => none
    | some none => some (up, s)
    | some (some (none, _)) => if up.isNone then none else some (none, s)
    | some (some (some i, params)) =>
      (S.applycf i params (up.getD []) s).map fun s =>
        (if i = S.node then some params else up, s)

/-- A text is read line by line, from the node `config` on and back to it. -/
def ConfSection.replay [LongWidth] {σ ι : Type} [DecidableEq ι] (S : ConfSection σ ι) (text : Bytes)
    (s : σ) : Option (Option (List Bytes) × σ) :=
  (Records.lines 10 text).foldlM S.step (none, s)

/-! ## Steps of a section -/

section

variable {ι : Type} {k : Bytes} {m : ParamMask}

/-- A line with a keyword and one parameter: blanks, the keyword, a blank and the rest. -/
def keyLine (blanks : ℕ) (k t : Bytes) : Bytes := List.replicate blanks 32 ++ (k ++ 32 :: t)

/-- How a keyword of such a line is found: at the first byte it opens a part, it ends at the blank,
and it is no longer than the masks are. -/
structure Keyword (k : Bytes) : Prop where
  head : ∀ c ∈ k.head?, c ∉ ([32, 39, 34, 33, 35, 59] : Bytes)
  inside : insidePart 32 false k = some false
  ne : k ≠ []
  noNul : (0 : UInt8) ∉ k
  len : k.length ≤ 30

instance (k : Bytes) : Decidable (Keyword k) :=
  @decidable_of_iff _ ((∀ c ∈ k.head?, c ∉ ([32, 39, 34, 33, 35, 59] : Bytes)) ∧
      insidePart 32 false k = some false ∧ k ≠ [] ∧ (0 : UInt8) ∉ k ∧ k.length ≤ 30)
    ⟨fun h => ⟨h.1, h.2.1, h.2.2.1, h.2.2.2.1, h.2.2.2.2⟩,
      fun h => ⟨h.head, h.inside, h.ne, h.noNul, h.len⟩⟩
    -- only the one byte is looked at
    (@instDecidableAnd _ _ (Option.decidableForallMem _) inferInstance)

theorem splitLoop_blanks (blanks : ℕ) (s : Bytes) :
    splitLoop 32 none false (List.replicate blanks 32 ++ s) = splitLoop 32 none false s := by
  induction blanks with
  | zero => rfl
  | succ blanks ih => rw [List.replicate_succ, List.cons_append, splitLoop_blank, ih]

theorem split_keyLine (hk : Keyword k) {blanks : ℕ} (hb : blanks ≤ 2) (t : Bytes) :
    split (keyLine blanks k t) =
      ⟨k ++ 32 :: snprintf (299 - (blanks + k.length + 1)) t, k.length⟩ ::
        splitLoop 32 none false (snprintf (299 - (blanks + k.length + 1)) t) := by
  have hlen := hk.len
  have hline : keyLine blanks k t = (List.replicate blanks 32 ++ (k ++ [32])) ++ t := by
    simp [keyLine]
  have hfront : (List.replicate blanks (32 : UInt8) ++ (k ++ [32])).length =
      blanks + k.length + 1 := by
    simp only [List.length_append, List.length_replicate, List.length_cons, List.length_nil]
    omega
  have hnul : (0 : UInt8) ∉ List.replicate blanks (32 : UInt8) ++ (k ++ [32]) := by
    simp only [List.mem_append, List.mem_replicate, List.mem_singleton, not_or]
    exact ⟨fun h => absurd h.2 (by decide), hk.noNul, by decide⟩
  rw [split, hline, snprintf_append hnul (by omega), hfront, List.append_assoc, splitLoop_blanks,
    List.append_assoc, List.singleton_append]
  cases k with
  | nil => exact absurd rfl hk.ne
  | cons c k => exact splitLoop_word (hk.head c rfl) hk.inside _

/-- **A line with a parameter**, for the one command with its keyword. -/
theorem takeLine_keyLine [LongWidth] {cmds pre post : List (List MaskWord × ι)} {i : ι}
    {key : Bytes} (hcmds : cmds = pre ++ ([.key key, .param m], i) :: post) (hk : Keyword k)
    (hkey : matchNstrict (k ++ [32]) key = true)
    (hrefuse : (pre ++ post).all (fun c => refuses (k ++ [32]) c.1) = true)
    {blanks : ℕ} (hb : blanks ≤ 2) (t : Bytes) :
    takeLine cmds (split (keyLine blanks k t)) =
      (lineParam m (blanks + k.length + 1) t).map fun s => some (i, [s]) := by
  rw [split_keyLine hk hb, hcmds]
  apply takeLine_param
  · rw [matchNstrict_blank]
    exact hkey
  · intro c hc
    rw [refuses_blank]
    exact List.all_eq_true.mp hrefuse c hc

end

section

variable {σ ι : Type} [DecidableEq ι] {S : ConfSection σ ι} {s s' : σ} {i : ι}
  {up : List Bytes} {k key : Bytes} {m : ParamMask} {pre post : List (List MaskWord × Option ι)}

theorem ConfSection.step_enter [LongWidth]
    (hS : S.config = pre ++ ([.key key, .param m], some S.node) :: post)
    (hk : Keyword k) (hkey : matchNstrict (k ++ [32]) key = true)
    (hrefuse : (pre ++ post).all (fun c => refuses (k ++ [32]) c.1) = true) (t : Bytes) :
    S.step (none, s) (keyLine 1 k t) = (lineParam m (1 + k.length + 1) t).bind fun p =>
      (S.applycf S.node [p] [] s).map fun s => (some [p], s) := by
  rw [step]
  simp only [Option.isNone_none, if_true]
  rw [takeLine_keyLine hS hk hkey hrefuse (by omega) t]
  cases lineParam m (1 + k.length + 1) t with
  | none => rfl
  | some p => simp

/-- The first line of a node, where its command always comes to an end. -/
theorem ConfSection.step_enter_map [LongWidth]
    (hS : S.config = pre ++ ([.key key, .param m], some S.node) :: post)
    (hk : Keyword k) (hkey : matchNstrict (k ++ [32]) key = true)
    (hrefuse : (pre ++ post).all (fun c => refuses (k ++ [32]) c.1) = true) (t : Bytes)
    {g : Bytes → σ} (happly : ∀ p, S.applycf S.node [p] [] s = some (g p)) :
    S.step (none, s) (keyLine 1 k t) =
      (lineParam m (1 + k.length + 1) t).map fun p => (some [p], g p) := by
  rw [step_enter hS hk hkey hrefuse]
  simp only [happly, Option.map_some]
  exact (Option.map_eq_bind).symm

theorem ConfSection.step_inner [LongWidth]
    (hS : S.inner = pre ++ ([.key key, .param m], some i) :: post)
    (hi : i ≠ S.node) (hk : Keyword k) (hkey : matchNstrict (k ++ [32]) key = true)
    (hrefuse : (pre ++ post).all (fun c => refuses (k ++ [32]) c.1) = true) (t : Bytes) :
    S.step (some up, s) (keyLine 2 k t) = (lineParam m (2 + k.length + 1) t).bind fun p =>
      (S.applycf i [p] up s).map fun s => (some up, s) := by
  rw [step]
  simp only [Option.isNone_some, Bool.false_eq_true, if_false]
  rw [takeLine_keyLine hS hk hkey hrefuse (by omega) t]
  cases lineParam m (2 + k.length + 1) t with
  | none => rfl
  | some p => simp [hi]

/-- The line that ends a node. -/
def exitLine : Bytes := str "  exit"

theorem ConfSection.step_exit [LongWidth] (hS : S.inner = ([.key (str "Exit")], none) :: post) :
    S.step (some up, s) exitLine = some (none, s) := by
  have hsplit : split exitLine = [⟨str "exit", 4⟩] := by decide +kernel
  have haction : makeAction [.key (str "Exit")] [⟨str "exit", 4⟩] = some (.ok []) := by rfl
  rw [step]
  simp only [Option.isNone_some, Bool.false_eq_true, if_false]
  rw [hS, hsplit, takeLine, haction]

/-- An empty line does nothing. -/
theorem ConfSection.step_nil [LongWidth] (hconfig : S.config ≠ []) (hinner : S.inner ≠ [])
    (x : Option (List Bytes) × σ) : S.step x [] = some x := by
  have hempty : ∀ cmds : List (List MaskWord × Option ι), cmds ≠ [] →
      takeLine cmds (split []) = some none := by
    intro cmds hcmds
    cases cmds with
    | nil => contradiction
    | cons c cmds => rfl
  obtain ⟨up, s⟩ := x
  rw [step]
  cases up with
  | none =>
    simp only [Option.isNone_none, if_true]
    rw [hempty S.config hconfig]
  | some up =>
    simp only [Option.isNone_some, Bool.false_eq_true, if_false]
    rw [hempty S.inner hinner]

/-- A text that ends with a newline. -/
theorem ConfSection.replay_lines [LongWidth] (hconfig : S.config ≠ []) (hinner : S.inner ≠ [])
    {text : Bytes} {ls : List Bytes} (hlines : Records.lines 10 text = ls ++ [[]]) (s : σ) :
    S.replay text s = ls.foldlM S.step (none, s) := by
  rw [replay, hlines, List.foldlM_append]
  cases ls.foldlM S.step (none, s) with
  | none => rfl
  | some x =>
    rw [Option.bind_eq_bind, Option.bind_some, List.foldlM_cons, step_nil hconfig hinner]
    rfl

theorem ten_not_mem_keyLine {k t : Bytes} (hk : (10 : UInt8) ∉ k) (ht : (10 : UInt8) ∉ t)
    (blanks : ℕ) : (10 : UInt8) ∉ keyLine blanks k t := by
  simp only [keyLine, List.mem_append, List.mem_replicate, List.mem_cons, not_or]
  exact ⟨fun h => absurd h.2 (by decide), hk, by decide, ht⟩

/-- The lines of a node have no newlines. -/
theorem ten_not_mem_nodeLines {k t : Bytes} {ls : List Bytes} (hk : (10 : UInt8) ∉ k)
    (ht : (10 : UInt8) ∉ t) (hls : ∀ l ∈ ls, (10 : UInt8) ∉ l) :
    ∀ l ∈ keyLine 1 k t :: ls ++ [exitLine], (10 : UInt8) ∉ l := by
  intro l hl
  rcases List.mem_append.mp hl with hl | hl
  · rcases List.mem_cons.mp hl with rfl | hl
    · exact ten_not_mem_keyLine hk ht 1
    · exact hls l hl
  · rw [List.mem_singleton.mp hl]
    decide +kernel

/-! ## Numbers and texts as parameters -/

/-- A text without the delimiter and without a backslash. -/
theorem insidePart_of_not_mem {delim : UInt8} {t : Bytes} (hdelim : delim ∉ t)
    (hback : (92 : UInt8) ∉ t) : insidePart delim false t = some false := by
  induction t with
  | nil => rfl
  | cons c t ih =>
    rw [List.mem_cons, not_or] at hdelim hback
    rw [insidePart, if_neg Bool.false_ne_true, if_neg (Ne.symm hback.1), if_neg (Ne.symm hdelim.1)]
    exact ih hdelim.2 hback.2

/-- A text without any of the bytes that the splitter looks for. -/
theorem plainWord_of_not_mem {t : Bytes} (hne : t ≠ [])
    (ht : ∀ c ∈ t, c ∉ ([32, 39, 34, 33, 35, 59, 92] : Bytes)) : PlainWord t := by
  have hother : ∀ c ∈ ([32, 92] : Bytes), c ∉ t := by
    intro c hc hmem
    have hsub : ∀ c ∈ ([32, 92] : Bytes), c ∈ ([32, 39, 34, 33, 35, 59, 92] : Bytes) := by simp
    exact ht c hmem (hsub c hc)
  refine ⟨?_, hne, ?_⟩
  · intro c hc hmem
    apply ht c (List.mem_of_head? hc)
    exact List.mem_append_left [92] hmem
  · rw [insidePart_of_not_mem (hother 32 (by simp)) (hother 92 (by simp))]
    rfl

theorem isDigit_of_mem_decimal {n : ℕ} {c : UInt8} (hc : c ∈ decimal n) : isDigit c = true := by
  have hbyte := digit_of_mem_toString hc
  simp [isDigit, hbyte.1, hbyte.2]

/-- The text of an `int` has ten digits at most. -/
theorem length_decimal_le {n : ℕ} (hn : n < 10 ^ 10) : (decimal n).length ≤ 10 :=
  length_toString_le (by omega) hn

theorem decimal_negSucc (n : ℕ) : decimal (Int.negSucc n) = 45 :: decimal ((n + 1 : ℕ) : ℤ) :=
  toString_negSucc n

/-- The text of an `int`: digits, with a minus sign where it is negative. -/
structure DecimalText (z : ℤ) (t : Bytes) : Prop where
  ne : t ≠ []
  byte : ∀ c ∈ t, isDigit c = true ∨ c = 45
  digits : t.all isDigit = decide (0 ≤ z)
  len : t.length ≤ 11

/-- The bytes of a number: digits, and a minus sign. -/
theorem byte_of_mem_decimal {z : ℤ} {c : UInt8} (hc : c ∈ decimal z) :
    isDigit c = true ∨ c = 45 := by
  rcases byte_of_mem_toString hc with h | h
  · exact .inl (by simp [isDigit, h.1, h.2])
  · exact .inr h

theorem ten_not_mem_decimal (z : ℤ) : (10 : UInt8) ∉ decimal z := by
  intro h10
  rcases byte_of_mem_decimal h10 with h | h
  · exact absurd h (by decide)
  · exact absurd h (by decide)

theorem decimalText {z : ℤ} (hz : IntNumber z) : DecimalText z (decimal z) := by
  obtain ⟨hlow, hhigh⟩ := hz
  cases z with
  | ofNat n =>
    have hlen := @length_decimal_le n (by
      have hn : n < 2147483648 := by simpa using hhigh
      omega)
    refine ⟨toString_ne_nil n, fun c hc => byte_of_mem_decimal hc, ?_, ?_⟩
    · rw [decide_eq_true (show 0 ≤ Int.ofNat n from Int.natCast_nonneg n)]
      exact List.all_eq_true.mpr fun c hc => isDigit_of_mem_decimal hc
    · show (decimal (n : ℤ)).length ≤ 11
      omega
  | negSucc n =>
    have hlen := @length_decimal_le (n + 1) (by omega)
    refine ⟨?_, fun c hc => byte_of_mem_decimal hc, ?_, ?_⟩
    · rw [decimal_negSucc]
      exact List.cons_ne_nil _ _
    · rw [decimal_negSucc, List.all_cons, decide_eq_false (by omega)]
      rfl
    · rw [decimal_negSucc, List.length_cons]
      exact Nat.succ_le_succ hlen

/-- **A number as a parameter**: it is read unless it is negative or out of the bounds. -/
theorem lineParam_decimal [LongWidth] {z : ℤ} (hz : IntNumber z) (min : ℤ) (max : Option ℤ) {n : ℕ}
    (hn : n ≤ 200) :
    lineParam (.int min max) n (decimal z) =
      if 0 ≤ z ∧ min ≤ z ∧ (max.all fun m => decide (z ≤ m)) = true then some (decimal z)
      else none := by
  obtain ⟨hne, hbyte, hdigits, hlen⟩ := decimalText hz
  have hother : ∀ c ∈ decimal z, c ∉ ([32, 39, 34, 33, 35, 59, 92, 0] : Bytes) := by
    have hall : ∀ c ∈ ([32, 39, 34, 33, 35, 59, 92, 0] : Bytes), isDigit c = false ∧ c ≠ 45 := by
      simp [isDigit]
    intro c hc hmem
    rcases hbyte c hc with h | h
    · rw [(hall c hmem).1] at h
      exact Bool.false_ne_true h
    · exact (hall c hmem).2 h
  have hplain : PlainWord (decimal z) := plainWord_of_not_mem hne fun c hc hmem =>
    hother c hc (List.mem_append_left [0] hmem)
  have hline : snprintf (299 - n) (decimal z) = decimal z := by
    apply snprintf_eq_self
    · exact fun h0 => hother 0 h0 (by simp)
    · omega
  have hatoi : atoi (decimal z) = z := atoi_toString hz
  rw [lineParam, hline, splitLoop_plain hplain]
  simp only [oneParam, CmdPart.text, List.take_length, isCorrespondW, hdigits, hatoi,
    Option.bind_some, Bool.and_eq_true, decide_eq_true_eq, and_assoc]

/-! ## What a replay keeps -/

/-- A text that a line can hold. -/
def Clean (t : Bytes) : Prop := (0 : UInt8) ∉ t ∧ (10 : UInt8) ∉ t

instance (t : Bytes) : Decidable (Clean t) := inferInstanceAs (Decidable (_ ∧ _))

/-- A text that is one parameter as it stands, for a mask `{str:min-max}`. -/
structure PlainText (min max : ℕ) (t : Bytes) : Prop where
  word : PlainWord t
  clean : Clean t
  min_le : min ≤ t.length
  le_max : t.length ≤ max

/-- A text that is one parameter between quotes. -/
structure QuotedText (min max : ℕ) (t : Bytes) : Prop where
  word : QuotedWord t
  clean : Clean t
  min_le : min ≤ t.length
  le_max : t.length ≤ max

theorem isCorrespondW_str_iff [LongWidth] {min max : ℕ} {t : Bytes} :
    isCorrespondW (.str min (some max)) t = some true ↔ min ≤ t.length ∧ t.length ≤ max := by
  simp [isCorrespondW]

theorem lineParam_plainText_iff [LongWidth] {min max n : ℕ} {t : Bytes} (hn : max + n ≤ 298)
    (ht : (10 : UInt8) ∉ t) :
    lineParam (.str min (some max)) n t = some t ↔ PlainText min max t := by
  rw [lineParam_plain_iff fun h => by
    have hmax := (isCorrespondW_str_iff.mp h).2
    omega, isCorrespondW_str_iff]
  constructor
  · rintro ⟨hword, h0, hmin, hmax⟩
    exact ⟨hword, ⟨h0, ht⟩, hmin, hmax⟩
  · intro h
    exact ⟨h.word, h.clean.1, h.min_le, h.le_max⟩

theorem lineParam_quotedText_iff [LongWidth] {min max n : ℕ} {t : Bytes} (hn : max + 2 + n ≤ 298)
    (ht : (10 : UInt8) ∉ t) :
    lineParam (.str min (some max)) n (39 :: t ++ [39]) = some t ↔ QuotedText min max t := by
  rw [lineParam_quoted_iff fun h => by
    have hmax := (isCorrespondW_str_iff.mp h).2
    omega, isCorrespondW_str_iff]
  constructor
  · rintro ⟨hword, h0, hmin, hmax⟩
    exact ⟨hword, ⟨h0, ht⟩, hmin, hmax⟩
  · intro h
    exact ⟨h.word, h.clean.1, h.min_le, h.le_max⟩

theorem mem_of_parseLoop {first : Bool} {mask : List MaskWord} {parts : List CmdPart}
    {params : List Bytes} (h : parseLoop first mask parts = .ok params) {t : Bytes}
    (ht : t ∈ params) : ∃ p ∈ parts, p.text = t := by
  induction mask generalizing first parts params with
  | nil =>
    cases parts with
    | nil =>
      obtain rfl := Except.ok.inj h
      contradiction
    | cons p parts => contradiction
  | cons m mask ih =>
    cases parts with
    | nil => cases m <;> contradiction
    | cons p parts =>
      cases m with
      | key k =>
        rw [parseLoop] at h
        split at h
        · obtain ⟨q, hq, hqt⟩ := ih h ht
          exact ⟨q, List.mem_cons_of_mem p hq, hqt⟩
        · contradiction
      | param m =>
        rw [parseLoop] at h
        split at h
        · next ps hps =>
          obtain rfl := Except.ok.inj h
          rcases List.mem_cons.mp ht with rfl | ht
          · exact ⟨p, List.mem_cons_self, rfl⟩
          · obtain ⟨q, hq, hqt⟩ := ih hps ht
            exact ⟨q, List.mem_cons_of_mem p hq, hqt⟩
        · contradiction

theorem parseCommand_of_makeAction [LongWidth] {mask : List MaskWord} {parts : List CmdPart}
    {params : List Bytes} (h : makeAction mask parts = some (.ok params)) :
    parseCommand mask parts = .ok params := by
  unfold makeAction at h
  split at h
  · cases Option.some.inj h
  · next ps hps =>
    obtain ⟨ok, -, hok⟩ := Option.map_eq_some_iff.mp h
    split at hok
    · obtain rfl := Except.ok.inj hok
      exact hps
    · contradiction

theorem takeLine_clean [LongWidth] {ι : Type} {cmds : List (List MaskWord × ι)} {line : Bytes}
    {i : ι} {params : List Bytes} (hline : (10 : UInt8) ∉ line)
    (h : takeLine cmds (split line) = some (some (i, params))) : ∀ t ∈ params, Clean t := by
  induction cmds with
  | nil => contradiction
  | cons c cmds ih =>
    obtain ⟨mask, j⟩ := c
    rw [takeLine] at h
    split at h
    · contradiction
    · next ps hps =>
      obtain ⟨rfl, rfl⟩ := Prod.mk.inj (Option.some.inj (Option.some.inj h))
      have hparse := parseCommand_of_makeAction hps
      rw [parseCommand] at hparse
      split at hparse
      · contradiction
      · intro t ht
        obtain ⟨p, hp, rfl⟩ := mem_of_parseLoop hparse ht
        have hmem := (of_mem_words hp).2
        constructor
        · intro h0
          exact zero_not_mem_cstr line (List.mem_of_mem_take (hmem 0 h0))
        · intro h10
          exact hline ((isPrefix_snprintf _ _).subset (hmem 10 h10))
    · cases Option.some.inj h
    · exact ih h

/-- **What `applycf` keeps, reading a text keeps**: the parameters are texts of lines. -/
theorem ConfSection.replay_invariant [LongWidth] {I : σ → Prop}
    (happly : ∀ i params up s s', (∀ t ∈ params, Clean t) → (∀ t ∈ up, Clean t) → I s →
      S.applycf i params up s = some s' → I s') {text : Bytes} {up : Option (List Bytes)}
    (hs : I s) (h : S.replay text s = some (up, s')) : I s' := by
  have hstep : ∀ (x x' : Option (List Bytes) × σ) (line : Bytes), line ∈ Records.lines 10 text →
      (∀ t ∈ x.1.getD [], Clean t) ∧ I x.2 → S.step x line = some x' →
      (∀ t ∈ x'.1.getD [], Clean t) ∧ I x'.2 := by
    rintro ⟨up, s⟩ x' line hline ⟨hup, hI⟩ hx
    have hnl := Records.not_mem_of_mem_lines hline
    rw [step] at hx
    split at hx
    · contradiction
    · rw [← Option.some.inj hx]
      exact ⟨hup, hI⟩
    · split at hx
      · contradiction
      · rw [← Option.some.inj hx]
        exact ⟨by simp, hI⟩
    · next i params hline =>
      have hparams := takeLine_clean hnl hline
      obtain ⟨s₁, hs₁, rfl⟩ := Option.map_eq_some_iff.mp hx
      refine ⟨?_, happly i params _ s s₁ hparams hup hI hs₁⟩
      dsimp only
      split
      · exact hparams
      · exact hup
  have hrun := @Records.foldlM_invariant _ _ S.step
    (fun x => (∀ t ∈ x.1.getD [], Clean t) ∧ I x.2) _ hstep (none, s) (up, s') ⟨by simp, hs⟩ h
  exact hrun.2

end

end Tacppd
