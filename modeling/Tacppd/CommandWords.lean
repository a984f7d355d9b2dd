/-
# The words of a command line

What `VtyLineSplitter::split` makes of a line that is written word by word: each word plain or
between quotes, with blanks between them, and behind the last one nothing or a comment.  The
parts are the words, each at the place where it stands (`split_words`).
-/
import Tacppd.ConfSection

namespace Tacppd

/-- How a word stands in a line. -/
inductive Quoting
  | plain
  | single
  | double
  deriving DecidableEq, Repr

/-- The byte that ends a word. -/
def Quoting.delim : Quoting → UInt8
  | .plain => 32
  | .single => 39
  | .double => 34

/-- A word of a line.  A quote of the other kind may stand between quotes, and so may blanks and
the signs of a comment; without quotes only the first byte must not begin a comment. -/
structure LineWord where
  text : Bytes
  quoting : Quoting
  ne : text ≠ []
  zero : (0 : UInt8) ∉ text
  backslash : (92 : UInt8) ∉ text
  delim : quoting.delim ∉ text
  plain : quoting = .plain → (39 : UInt8) ∉ text ∧ (34 : UInt8) ∉ text ∧
    ∀ c ∈ text.head?, c ∉ ([33, 35, 59] : Bytes)

/-- The word with its quotes. -/
def LineWord.written (w : LineWord) : Bytes :=
  match w.quoting with
  | .plain => w.text
  | .single => 39 :: w.text ++ [39]
  | .double => 34 :: w.text ++ [34]

/-- The number of bytes in front of the text. -/
def LineWord.lead (w : LineWord) : ℕ := if w.quoting = .plain then 0 else 1

/-- The words, each with the number of blanks in front of it. -/
def wordsLine : List (ℕ × LineWord) → Bytes
  | [] => []
  | (blanks, w) :: ws => List.replicate blanks 32 ++ (w.written ++ wordsLine ws)

/-- There is a blank between two words. -/
def WordsApart (ws : List (ℕ × LineWord)) : Prop := ∀ p ∈ ws.tail, 1 ≤ p.1

/-- Where the texts begin and how long they are, for a line that begins at `start`. -/
def wordEntries (start : ℕ) : List (ℕ × LineWord) → List (ℕ × ℕ)
  | [] => []
  | (blanks, w) :: ws =>
    (start + blanks + w.lead, w.text.length) ::
      wordEntries (start + blanks + w.written.length) ws

/-- The part of a line at an entry of `splitLine`. -/
def CmdPart.ofEntry (line : Bytes) (entry : ℕ × ℕ) : CmdPart := ⟨line.drop entry.1, entry.2⟩

/-- What may stand behind the words: nothing, or a comment with a blank in front of it unless
there is no word. -/
def BehindWords (ws : List (ℕ × LineWord)) (blanks : ℕ) (comment : Bytes) : Prop :=
  comment = [] ∨ (∃ c ∈ ([33, 35, 59] : Bytes), ∃ t, comment = c :: t) ∧ (ws = [] ∨ 1 ≤ blanks)

variable {w : LineWord} {ws : List (ℕ × LineWord)} {s comment : Bytes} {blanks start : ℕ}

/-! ## One word -/

theorem LineWord.zero_not_mem_written (w : LineWord) : (0 : UInt8) ∉ w.written := by
  unfold written
  split
  · exact w.zero
  · simpa using w.zero
  · simpa using w.zero

theorem LineWord.drop_lead (w : LineWord) (s : Bytes) :
    ((w.written ++ s).drop w.lead).take w.text.length = w.text := by
  unfold written lead
  cases h : w.quoting with
  | plain => simp
  | single => simp
  | double => simp

/-- Between quotes a word ends at its quote, whatever stands behind it. -/
theorem splitLoop_between {q : UInt8} (hq : q = 39 ∨ q = 34) {t : Bytes} (hdelim : q ∉ t)
    (hback : (92 : UInt8) ∉ t) (s : Bytes) :
    splitLoop 32 none false (q :: t ++ [q] ++ s) =
      ⟨t ++ q :: s, t.length⟩ :: splitLoop 32 none false s := by
  have hne : q ≠ 92 := by rcases hq with rfl | rfl <;> decide
  have hsnoc : q :: t ++ [q] ++ s = q :: (t ++ q :: s) := by simp
  rw [hsnoc, splitLoop_quote hq, splitLoop_inside (insidePart_of_not_mem hdelim hback),
    splitLoop_delim hne]
  simp only [CmdPart.more, Nat.zero_add]

/-- Without quotes it ends at a blank and at the end of the line. -/
theorem splitLoop_unquoted {c : UInt8} {t : Bytes} (hc : c ∉ ([32, 39, 34, 33, 35, 59] : Bytes))
    (hblank : (32 : UInt8) ∉ c :: t) (hback : (92 : UInt8) ∉ c :: t)
    (hs : s = [] ∨ ∃ s', s = 32 :: s') :
    splitLoop 32 none false (c :: t ++ s) =
      ⟨c :: t ++ s, (c :: t).length⟩ :: splitLoop 32 none false s := by
  have hinside := insidePart_of_not_mem hblank hback
  rcases hs with rfl | ⟨s, rfl⟩
  · rw [List.append_nil]
    apply splitLoop_plain
    refine ⟨?_, List.cons_ne_nil c t, ?_⟩
    · intro c' hc'
      rwa [← Option.some.inj hc']
    · rw [hinside]
      rfl
  · rw [splitLoop_blank]
    exact splitLoop_word hc hinside s

/-- **A word becomes a part**, and the scan goes on behind it as at the beginning of a line. -/
theorem splitLoop_written (w : LineWord) (hs : s = [] ∨ ∃ s', s = 32 :: s') :
    splitLoop 32 none false (w.written ++ s) =
      ⟨(w.written ++ s).drop w.lead, w.text.length⟩ :: splitLoop 32 none false s := by
  obtain ⟨text, quoting, hne, -, hback, hdelim, hplain⟩ := w
  cases quoting with
  | plain =>
    obtain ⟨hsingle, hdouble, hcomment⟩ := hplain rfl
    cases text with
    | nil => exact absurd rfl hne
    | cons c t =>
      apply splitLoop_unquoted ?_ hdelim hback hs
      intro hmem
      have hhead := hcomment c rfl
      simp only [List.mem_cons, not_or] at hsingle hdouble hdelim
      simp only [List.mem_cons, List.not_mem_nil, or_false, not_or] at hhead hmem
      rcases hmem with h | h | h | h | h | h
      · exact hdelim.1 h.symm
      · exact hsingle.1 h.symm
      · exact hdouble.1 h.symm
      · exact hhead.1 h
      · exact hhead.2.1 h
      · exact hhead.2.2 h
  | single =>
    show splitLoop 32 none false (39 :: text ++ [39] ++ s) = _
    rw [splitLoop_between (.inl rfl) hdelim hback]
    simp [LineWord.written, LineWord.lead]
  | double =>
    show splitLoop 32 none false (34 :: text ++ [34] ++ s) = _
    rw [splitLoop_between (.inr rfl) hdelim hback]
    simp [LineWord.written, LineWord.lead]

/-! ## A line -/

/-- What stands behind a word begins with a blank or is nothing. -/
theorem behind_word (hsep : ∀ p ∈ ws, 1 ≤ p.1)
    (hs : s = [] ∨ ∃ s', s = 32 :: s') :
    wordsLine ws ++ s = [] ∨ ∃ s', wordsLine ws ++ s = 32 :: s' := by
  cases ws with
  | nil => exact hs
  | cons p ws =>
    obtain ⟨blanks, w⟩ := p
    have hpos : 1 ≤ blanks := hsep _ List.mem_cons_self
    obtain ⟨n, rfl⟩ : ∃ n, blanks = n + 1 := ⟨blanks - 1, by omega⟩
    exact .inr ⟨_, by rw [wordsLine, List.replicate_succ]; rfl⟩

/-- **The words of a line**, from any place of it on. -/
theorem splitLoop_wordsLine (hsep : WordsApart ws) (hs : ws = [] ∨ s = [] ∨ ∃ s', s = 32 :: s')
    (hstop : splitLoop 32 none false s = []) {line : Bytes}
    (hline : line.drop start = wordsLine ws ++ s) :
    splitLoop 32 none false (wordsLine ws ++ s) =
      (wordEntries start ws).map (CmdPart.ofEntry line) := by
  induction ws generalizing start with
  | nil => exact hstop
  | cons p ws ih =>
    obtain ⟨blanks, w⟩ := p
    have hs' : s = [] ∨ ∃ s', s = 32 :: s' := hs.resolve_left (List.cons_ne_nil _ _)
    have hcons : wordsLine ((blanks, w) :: ws) ++ s =
        List.replicate blanks 32 ++ (w.written ++ (wordsLine ws ++ s)) := by
      rw [wordsLine, List.append_assoc, List.append_assoc]
    rw [hcons] at hline ⊢
    have hword : line.drop (start + blanks) = w.written ++ (wordsLine ws ++ s) := by
      rw [← List.drop_drop, hline, List.drop_append_of_le_length (by simp)]
      simp
    have hnext : line.drop (start + blanks + w.written.length) = wordsLine ws ++ s := by
      rw [← List.drop_drop, hword, List.drop_left]
    have hblank : ∀ p ∈ ws, 1 ≤ p.1 := hsep
    rw [splitLoop_blanks, splitLoop_written w (behind_word hblank hs'), wordEntries,
      List.map_cons]
    congr 1
    · rw [CmdPart.ofEntry, ← List.drop_drop, hword]
    · apply ih ?_ (.inr hs') hnext
      intro p hp
      exact hsep p (List.mem_of_mem_tail hp)

/-- The texts at the entries are the words. -/
theorem text_wordEntries {line : Bytes} (hline : line.drop start = wordsLine ws ++ s) :
    (wordEntries start ws).map (fun e => (CmdPart.ofEntry line e).text) =
      ws.map fun p => p.2.text := by
  induction ws generalizing start with
  | nil => rfl
  | cons p ws ih =>
    obtain ⟨blanks, w⟩ := p
    have hcons : wordsLine ((blanks, w) :: ws) ++ s =
        List.replicate blanks 32 ++ (w.written ++ (wordsLine ws ++ s)) := by
      rw [wordsLine, List.append_assoc, List.append_assoc]
    have hword : line.drop (start + blanks) = w.written ++ (wordsLine ws ++ s) := by
      rw [← List.drop_drop, hline, hcons, List.drop_append_of_le_length (by simp)]
      simp
    have hnext : line.drop (start + blanks + w.written.length) = wordsLine ws ++ s := by
      rw [← List.drop_drop, hword, List.drop_left]
    rw [wordEntries, List.map_cons, List.map_cons, ih hnext, CmdPart.ofEntry, CmdPart.text,
      ← List.drop_drop, hword, w.drop_lead]

theorem zero_not_mem_wordsLine (ws : List (ℕ × LineWord)) : (0 : UInt8) ∉ wordsLine ws := by
  induction ws with
  | nil => exact List.not_mem_nil
  | cons p ws ih =>
    obtain ⟨blanks, w⟩ := p
    simp [wordsLine, w.zero_not_mem_written, ih]

/-- A comment makes no part. -/
theorem splitLoop_comment {c : UInt8} (hc : c ∈ ([33, 35, 59] : Bytes)) (t : Bytes) :
    splitLoop 32 none false (c :: t) = [] := by
  have hne : c ≠ 92 := by
    rintro rfl
    simp at hc
  have hcomment : c = 33 ∨ c = 35 ∨ c = 59 := by simpa using hc
  rw [splitLoop, if_neg Bool.false_ne_true, if_neg hne, if_pos ⟨rfl, hcomment⟩]

/-- What the buffer of `split` holds behind the words: the comment, or its front. -/
theorem behind_buffer (hbehind : BehindWords ws blanks comment) (n : ℕ) :
    let rest := List.replicate blanks 32 ++ snprintf n comment
    splitLoop 32 none false rest = [] ∧ (ws = [] ∨ rest = [] ∨ ∃ s', rest = 32 :: s') := by
  intro rest
  have hcut : splitLoop 32 none false (snprintf n comment) = [] := by
    rcases hbehind with rfl | ⟨⟨c, hc, t, rfl⟩, -⟩
    · simp [snprintf, cstr, splitLoop]
    · cases hsn : snprintf n (c :: t) with
      | nil => rw [splitLoop, Option.toList_none]
      | cons c' t' =>
        have hpre := isPrefix_snprintf n (c :: t)
        rw [hsn] at hpre
        rw [(List.cons_prefix_cons.mp hpre).1]
        exact splitLoop_comment hc t'
  refine ⟨by rw [splitLoop_blanks, hcut], ?_⟩
  cases blanks with
  | zero =>
    rcases hbehind with rfl | ⟨-, hws | hpos⟩
    · exact .inr (.inl (by simp [rest, snprintf, cstr]))
    · exact .inl hws
    · exact absurd hpos (by decide)
  | succ blanks => exact .inr (.inr ⟨_, by simp only [rest, List.replicate_succ]; rfl⟩)

/-- **The splitter yields the words of a line** with their positions and lengths, and a comment
behind them drops the rest. -/
theorem split_words (ws : List (ℕ × LineWord)) (hsep : WordsApart ws) (blanks : ℕ)
    (comment : Bytes) (hbehind : BehindWords ws blanks comment)
    (hlen : (wordsLine ws ++ List.replicate blanks 32).length ≤ 298) :
    let line := wordsLine ws ++ List.replicate blanks 32 ++ comment
    split line = (wordEntries 0 ws).map (CmdPart.ofEntry (snprintf 299 line)) ∧
      (split line).map CmdPart.text = ws.map fun p => p.2.text := by
  intro line
  have hzero : (0 : UInt8) ∉ wordsLine ws ++ List.replicate blanks 32 := by
    simp [zero_not_mem_wordsLine ws]
  have hline : snprintf 299 line = wordsLine ws ++ (List.replicate blanks 32 ++
      snprintf (299 - (wordsLine ws ++ List.replicate blanks 32).length) comment) := by
    rw [snprintf_append hzero (by omega), List.append_assoc]
  obtain ⟨hstop, hs⟩ := behind_buffer hbehind _
  have hsplit : split line = (wordEntries 0 ws).map (CmdPart.ofEntry (snprintf 299 line)) := by
    rw [split]
    nth_rewrite 1 [hline]
    exact splitLoop_wordsLine hsep hs hstop hline
  refine ⟨hsplit, ?_⟩
  rw [hsplit, List.map_map]
  exact text_wordEntries hline

/-- `show 'a;b' x#y ; rest`. -/
def commentedWords : List (ℕ × LineWord) :=
  [(0, ⟨str "show", .plain, by decide +kernel, by decide +kernel, by decide +kernel,
      by decide +kernel, fun _ => by decide +kernel⟩),
    (1, ⟨str "a;b", .single, by decide +kernel, by decide +kernel, by decide +kernel,
      by decide +kernel, nofun⟩),
    (1, ⟨str "x#y", .plain, by decide +kernel, by decide +kernel, by decide +kernel,
      by decide +kernel, fun _ => by decide +kernel⟩)]

theorem split_words_commented :
    (split (str "show 'a;b' x#y ; rest")).map CmdPart.text =
        [str "show", str "a;b", str "x#y"] ∧
      wordEntries 0 commentedWords = [(0, 4), (6, 3), (11, 3)] := by
  have hsep : WordsApart commentedWords := by
    intro p hp
    simp only [commentedWords, List.tail_cons, List.mem_cons, List.not_mem_nil, or_false] at hp
    rcases hp with rfl | rfl <;> exact Nat.le_refl 1
  have hbehind : BehindWords commentedWords 1 (str "; rest") :=
    .inr ⟨⟨59, by simp, str " rest", by decide +kernel⟩, .inr (Nat.le_refl 1)⟩
  have hline : wordsLine commentedWords ++ List.replicate 1 32 ++ str "; rest" =
      str "show 'a;b' x#y ; rest" := by decide +kernel
  have hsplit := split_words commentedWords hsep 1 (str "; rest") hbehind (by decide +kernel)
  rw [hline] at hsplit
  exact ⟨hsplit.2, by decide +kernel⟩

end Tacppd
