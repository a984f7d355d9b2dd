/-
# Command lines

`VtyLineSplitter::split` cuts a line into the parts of a command, `Command::parseCommand` compares
them with the mask of a command from `etc/tacppd.cf.xml`, and a node tries its commands one after
the other.

A part is written as it stands in the line: a backslash stays in it, and so does a quote of the
other kind.  `words_eq_self_iff` and `words_quoted_iff` say of which texts the splitter makes
one part that is the text itself, without quotes and between two of them.
-/
import Tacppd.PoolAddr
import Tacppd.TacDb

namespace Tacppd

/-! ## The splitter -/

/-- An entry of `splitLine`, a position and a length: here the line from the position on. -/
structure CmdPart where
  rest : Bytes
  len : ℕ
  deriving DecidableEq, Repr

/-- `string s(vt_line + param_next_pos, len)`. -/
def CmdPart.text (p : CmdPart) : Bytes := p.rest.take p.len

/-- The part goes on. -/
def CmdPart.more (p : CmdPart) (n : ℕ) : CmdPart := { p with len := p.len + n }

/-- The loop of `split`: `delim`, the part that is open (`in`), and whether the byte in front was
a backslash that is to be stepped over with this one. -/
def splitLoop (delim : UInt8) (part : Option CmdPart) (esc : Bool) : Bytes → List CmdPart
  | [] => part.toList
  | c :: rest =>
    if esc then splitLoop delim (part.map (·.more 1)) false rest
    else if c = 92 then
      splitLoop delim (some ((part.getD ⟨c :: rest, 0⟩).more 1)) true rest
    else if part = none ∧ (c = 33 ∨ c = 35 ∨ c = 59) then []
    else if c = delim then
      match part with
      | some p => p :: splitLoop 32 none false rest
      | none => splitLoop delim none false rest
    else if c = 39 ∨ c = 34 ∨ c = 32 then
      match part with
      | some p => splitLoop delim (some (p.more 1)) false rest
      | none => splitLoop c (some ⟨rest, 0⟩) false rest
    else splitLoop delim (some ((part.getD ⟨c :: rest, 0⟩).more 1)) false rest

/-- `split`, of a line that is kept in `char vt_line[300]`. -/
def split (line : Bytes) : List CmdPart := splitLoop 32 none false (snprintf 299 line)

/-! ## Texts that are one part -/

/-- What is read inside a part up to its delimiter: nothing when the delimiter comes in the text,
and else whether the text ends behind a backslash. -/
def insidePart (delim : UInt8) : Bool → Bytes → Option Bool
  | esc, [] => some esc
  | esc, c :: t =>
    if esc then insidePart delim false t
    else if c = 92 then insidePart delim true t
    else if c = delim then none
    else insidePart delim false t

/-- A text that the splitter takes for one part when it stands alone: it has no blank without a
backslash in front, and does not begin with a quote or as a comment does. -/
def PlainWord (t : Bytes) : Prop :=
  (∀ c ∈ t.head?, c ∉ ([32, 39, 34, 33, 35, 59] : Bytes)) ∧ t ≠ [] ∧
    (insidePart 32 false t).isSome

/-- A text that the splitter takes for one part between single quotes: no quote without a
backslash in front, and no such backslash at the end. -/
def QuotedWord (t : Bytes) : Prop := insidePart 39 false t = some false

instance (t : Bytes) : Decidable (PlainWord t) :=
  inferInstanceAs (Decidable (_ ∧ _ ∧ _))

instance (t : Bytes) : Decidable (QuotedWord t) :=
  inferInstanceAs (Decidable (_ = _))

section

variable {delim c : UInt8} {p q : CmdPart} {esc esc' : Bool} {t rest : Bytes}

/-- **Inside a part** the splitter takes every byte up to the delimiter. -/
theorem splitLoop_inside (h : insidePart delim esc t = some esc') (p : CmdPart) (rest : Bytes) :
    splitLoop delim (some p) esc (t ++ rest) =
      splitLoop delim (some (p.more t.length)) esc' rest := by
  induction t generalizing p esc with
  | nil =>
    obtain rfl := Option.some.inj h
    rfl
  | cons c t ih =>
    have hmore : p.more (c :: t).length = (p.more 1).more t.length := by
      simp only [CmdPart.more, List.length_cons]
      rw [Nat.add_assoc, Nat.add_comm 1]
    rw [insidePart] at h
    rw [List.cons_append, splitLoop, hmore]
    split at h
    · next hesc => rw [if_pos hesc, Option.map_some, ih h]
    · next hesc =>
      rw [if_neg hesc]
      split at h
      · next hc => rw [if_pos hc, Option.getD_some, ih h]
      · next hc =>
        rw [if_neg hc, if_neg (by simp)]
        split at h
        · contradiction
        · next hd =>
          rw [if_neg hd]
          split
          · exact ih h (p.more 1)
          · rw [Option.getD_some, ih h]

/-- At the delimiter the part ends. -/
theorem splitLoop_delim (hd : delim ≠ 92) (p : CmdPart) (rest : Bytes) :
    splitLoop delim (some p) false (delim :: rest) = p :: splitLoop 32 none false rest := by
  rw [splitLoop, if_neg Bool.false_ne_true, if_neg hd, if_neg (by simp), if_pos rfl]

/-- Between the parts. -/
theorem splitLoop_blank (s : Bytes) :
    splitLoop 32 none false (32 :: s) = splitLoop 32 none false s := by
  rw [splitLoop, if_neg Bool.false_ne_true, if_neg (by decide), if_neg (by decide), if_pos rfl]

theorem splitLoop_open (hc : c ∉ ([32, 39, 34, 33, 35, 59] : Bytes)) (s : Bytes) :
    splitLoop 32 none false (c :: s) = splitLoop 32 (some ⟨c :: s, 1⟩) (decide (c = 92)) s := by
  simp only [List.mem_cons, List.not_mem_nil, or_false, not_or] at hc
  obtain ⟨hblank, hsingle, hdouble, hbang, hhash, hsemi⟩ := hc
  rw [splitLoop, if_neg Bool.false_ne_true]
  split
  · next h => simp [CmdPart.more, h]
  · next h => simp [CmdPart.more, h, hblank, hsingle, hdouble, hbang, hhash, hsemi]

theorem insidePart_open (hc : c ≠ 32) (t : Bytes) :
    insidePart 32 false (c :: t) = insidePart 32 (decide (c = 92)) t := by
  rw [insidePart, if_neg Bool.false_ne_true]
  split
  · next h => rw [decide_eq_true h]
  · next h => rw [decide_eq_false h]

/-- A quote opens a part behind it. -/
theorem splitLoop_quote (hc : c = 39 ∨ c = 34) (s : Bytes) :
    splitLoop 32 none false (c :: s) = splitLoop c (some ⟨s, 0⟩) false s := by
  rcases hc with rfl | rfl
  · rw [splitLoop, if_neg Bool.false_ne_true, if_neg (by decide), if_neg (by decide),
      if_neg (by decide), if_pos (by decide)]
  · rw [splitLoop, if_neg Bool.false_ne_true, if_neg (by decide), if_neg (by decide),
      if_neg (by decide), if_pos (by decide)]

/-- A word with a blank behind it. -/
theorem splitLoop_word (hc : c ∉ ([32, 39, 34, 33, 35, 59] : Bytes))
    (ht : insidePart 32 false (c :: t) = some false) (rest : Bytes) :
    splitLoop 32 none false (c :: t ++ 32 :: rest) =
      ⟨c :: t ++ 32 :: rest, (c :: t).length⟩ :: splitLoop 32 none false rest := by
  have hblank : c ≠ 32 := fun h => hc (by simp [h])
  rw [insidePart_open hblank] at ht
  rw [List.cons_append, splitLoop_open hc, splitLoop_inside ht, splitLoop_delim (by decide)]
  simp only [CmdPart.more, List.length_cons, Nat.add_comm 1]

/-- The same at the end of the line, where a backslash may be the last byte. -/
theorem splitLoop_plain (ht : PlainWord t) : splitLoop 32 none false t = [⟨t, t.length⟩] := by
  obtain ⟨hhead, hne, hinside⟩ := ht
  cases t with
  | nil => exact absurd rfl hne
  | cons c t =>
    have hc := hhead c rfl
    have hblank : c ≠ 32 := fun h => hc (by simp [h])
    rw [insidePart_open hblank] at hinside
    obtain ⟨esc, hesc⟩ := Option.isSome_iff_exists.mp hinside
    have hrun := splitLoop_inside hesc ⟨c :: t, 1⟩ []
    rw [List.append_nil] at hrun
    rw [splitLoop_open hc, hrun, splitLoop]
    simp only [CmdPart.more, Option.toList_some, List.length_cons, Nat.add_comm 1]

/-! ## Texts that are not -/

/-- Where the delimiter comes, and what stands in front of it. -/
theorem exists_of_insidePart_eq_none (h : insidePart delim esc t = none) :
    ∃ u v, t = u ++ delim :: v ∧ insidePart delim esc u = some false := by
  induction t generalizing esc with
  | nil => contradiction
  | cons c t ih =>
    rw [insidePart] at h
    split at h
    · next hesc =>
      obtain ⟨u, v, rfl, hu⟩ := ih h
      exact ⟨c :: u, v, rfl, by rw [insidePart, if_pos hesc, hu]⟩
    · next hesc =>
      split at h
      · next hc =>
        obtain ⟨u, v, rfl, hu⟩ := ih h
        exact ⟨c :: u, v, rfl, by rw [insidePart, if_neg hesc, if_pos hc, hu]⟩
      · next hc =>
        split at h
        · next hd => exact ⟨[], t, by rw [hd]; rfl, by simpa [insidePart] using hesc⟩
        · next hd =>
          obtain ⟨u, v, rfl, hu⟩ := ih h
          exact ⟨c :: u, v, rfl, by rw [insidePart, if_neg hesc, if_neg hc, if_neg hd, hu]⟩

/-- **What a part is**: the open one, some bytes longer, or bytes of the text that is read. -/
theorem of_mem_splitLoop {part : Option CmdPart} {s : Bytes}
    (hq : q ∈ splitLoop delim part esc s) :
    (∃ p k, part = some p ∧ k ≤ s.length ∧ q = p.more k) ∨
      q.rest <:+ s ∧ q.len ≤ q.rest.length := by
  induction s generalizing delim part esc with
  | nil =>
    obtain rfl := Option.mem_toList.mp hq
    exact .inl ⟨q, 0, rfl, Nat.le_refl 0, rfl⟩
  | cons c s ih =>
    -- a part that the byte goes to
    have hmore : ∀ {delim esc p}, q ∈ splitLoop delim (some (CmdPart.more p 1)) esc s →
        (∃ k, k ≤ s.length + 1 ∧ q = p.more k) ∨ q.rest <:+ c :: s ∧ q.len ≤ q.rest.length := by
      intro delim esc p hq
      rcases ih hq with ⟨p', k, hp, hk, rfl⟩ | ⟨hsuf, hlen⟩
      · rw [← Option.some.inj hp]
        refine .inl ⟨1 + k, by omega, ?_⟩
        simp only [CmdPart.more, Nat.add_assoc]
      · exact .inr ⟨hsuf.trans (List.suffix_cons c s), hlen⟩
    -- a part that the byte opens
    have hopen : ∀ {delim esc}, q ∈ splitLoop delim (some (CmdPart.more ⟨c :: s, 0⟩ 1)) esc s →
        q.rest <:+ c :: s ∧ q.len ≤ q.rest.length := by
      intro delim esc hq
      rcases hmore hq with ⟨k, hk, rfl⟩ | hin
      · refine ⟨List.suffix_refl _, ?_⟩
        simp only [CmdPart.more, List.length_cons]
        omega
      · exact hin
    have hnone : ∀ {delim}, q ∈ splitLoop delim none false s →
        q.rest <:+ c :: s ∧ q.len ≤ q.rest.length := by
      intro delim hq
      rcases ih hq with ⟨p', _, hp, _⟩ | ⟨hsuf, hlen⟩
      · contradiction
      · exact ⟨hsuf.trans (List.suffix_cons c s), hlen⟩
    cases part with
    | some p =>
      rw [splitLoop] at hq
      have hkeep : ∀ {delim esc}, q ∈ splitLoop delim (some (CmdPart.more p 1)) esc s →
          (∃ p' k, some p = some p' ∧ k ≤ s.length + 1 ∧ q = p'.more k) ∨
            q.rest <:+ c :: s ∧ q.len ≤ q.rest.length := by
        intro delim esc hq
        rcases hmore hq with ⟨k, hk, rfl⟩ | hin
        · exact .inl ⟨p, k, rfl, hk, rfl⟩
        · exact .inr hin
      split at hq
      · exact hkeep hq
      · split at hq
        · exact hkeep hq
        · rw [if_neg (by simp)] at hq
          split at hq
          · rcases List.mem_cons.mp hq with rfl | hq
            · exact .inl ⟨q, 0, rfl, Nat.zero_le _, rfl⟩
            · exact .inr (hnone hq)
          · split at hq
            · exact hkeep hq
            · exact hkeep hq
    | none =>
      right
      rw [splitLoop] at hq
      split at hq
      · exact hnone hq
      · split at hq
        · exact hopen hq
        · split at hq
          · contradiction
          · split at hq
            · exact hnone hq
            · split at hq
              · -- a quote: the part begins behind it
                rcases ih hq with ⟨p', k, hp, hk, rfl⟩ | ⟨hsuf, hlen⟩
                · rw [← Option.some.inj hp]
                  refine ⟨List.suffix_cons c s, ?_⟩
                  simp only [CmdPart.more]
                  omega
                · exact ⟨hsuf.trans (List.suffix_cons c s), hlen⟩
              · exact hopen hq

/-- The parts of a line are made of its bytes. -/
theorem of_mem_words {s : Bytes} (hq : q ∈ splitLoop 32 none false s) :
    q.text.length ≤ s.length ∧ ∀ b ∈ q.text, b ∈ s := by
  rcases of_mem_splitLoop hq with ⟨_, _, h, _⟩ | ⟨hsuf, _⟩
  · contradiction
  · constructor
    · exact (List.length_take_le' _ _).trans hsuf.length_le
    · intro b hb
      exact hsuf.subset (List.mem_of_mem_take hb)

/-- A blank, a quote and a comment sign are not in the part that they stand in front of. -/
theorem length_text_lt (hc : c ∈ ([32, 39, 34, 33, 35, 59] : Bytes))
    (hq : q ∈ splitLoop 32 none false (c :: t)) : q.text.length < (c :: t).length := by
  have hlt : q.text.length ≤ t.length := by
    by_cases hblank : c = 32
    · rw [hblank, splitLoop_blank] at hq
      exact (of_mem_words hq).1
    · by_cases hquote : c = 39 ∨ c = 34
      · rw [splitLoop_quote hquote] at hq
        rcases of_mem_splitLoop hq with ⟨p, k, hp, hk, rfl⟩ | ⟨hsuf, _⟩
        · rw [← Option.some.inj hp]
          refine (List.length_take_le _ _).trans ?_
          simpa [CmdPart.more] using hk
        · exact (List.length_take_le' _ _).trans hsuf.length_le
      · have hcomment : c = 33 ∨ c = 35 ∨ c = 59 := by
          simpa [hblank, not_or.mp hquote] using hc
        rw [splitLoop, if_neg Bool.false_ne_true, if_neg (by rintro rfl; simp at hc),
          if_pos ⟨rfl, hcomment⟩] at hq
        contradiction
  exact Nat.lt_succ_of_le hlt

/-- **Without quotes**: the texts that stay one part. -/
theorem words_eq_self_iff (t : Bytes) :
    (splitLoop 32 none false t).map CmdPart.text = [t] ↔ PlainWord t := by
  constructor
  · intro h
    cases t with
    | nil => contradiction
    | cons c t =>
      have hc : c ∉ ([32, 39, 34, 33, 35, 59] : Bytes) := by
        intro hc
        have hmem : c :: t ∈ (splitLoop 32 none false (c :: t)).map CmdPart.text := by
          rw [h]
          exact List.mem_singleton_self _
        obtain ⟨q, hq, heq⟩ := List.mem_map.mp hmem
        have hlt := length_text_lt hc hq
        rw [heq] at hlt
        exact absurd hlt (Nat.lt_irrefl _)
      refine ⟨?_, List.cons_ne_nil c t, ?_⟩
      · intro c' hc'
        rwa [← Option.some.inj hc']
      · by_contra hnone
        rw [Option.not_isSome_iff_eq_none] at hnone
        obtain ⟨u, v, heq, hu⟩ := exists_of_insidePart_eq_none hnone
        cases u with
        | nil =>
          rw [(List.cons.inj heq).1] at hc
          simp at hc
        | cons c' u =>
          -- the part ends in front of the blank
          rw [heq] at h
          rw [(List.cons.inj heq).1] at hc
          rw [splitLoop_word hc hu, List.map_cons] at h
          have hlen := congrArg List.length (List.cons.inj h).1
          simp only [CmdPart.text, List.length_take, List.length_append, List.length_cons] at hlen
          omega
  · intro ht
    rw [splitLoop_plain ht]
    simp [CmdPart.text]

/-- **Between two quotes.** -/
theorem words_quoted_iff (t : Bytes) :
    (splitLoop 32 none false (39 :: t ++ [39])).map CmdPart.text = [t] ↔ QuotedWord t := by
  rw [List.cons_append, splitLoop_quote (.inl rfl), QuotedWord]
  cases h : insidePart 39 false t with
  | none =>
    obtain ⟨u, v, rfl, hu⟩ := exists_of_insidePart_eq_none h
    simp only [reduceCtorEq, iff_false]
    rw [List.append_assoc, splitLoop_inside hu, List.cons_append, splitLoop_delim (by decide),
      List.map_cons]
    intro h
    have hlen := congrArg List.length (List.cons.inj h).1
    simp only [CmdPart.text, CmdPart.more, List.length_take, List.length_append,
      List.length_cons] at hlen
    omega
  | some esc =>
    rw [splitLoop_inside h]
    cases esc with
    | false =>
      rw [splitLoop_delim (by decide), splitLoop]
      simp [CmdPart.text, CmdPart.more]
    | true =>
      rw [splitLoop, if_pos rfl, splitLoop]
      simp only [CmdPart.text, CmdPart.more, Option.map_some, Option.toList_some, List.map_cons,
        List.map_nil, iff_false, Option.some.injEq, Bool.true_eq_false]
      intro h
      have hlen := congrArg List.length (List.cons.inj h).1
      simp only [List.length_take, List.length_append, List.length_cons, List.length_nil] at hlen
      omega

end

/-! ## Masks -/

/-- The second loop of `matchNstrict`: up to the end of one of the texts, or a blank. -/
def matchNstrictRest : Bytes → Bytes → Bool
  | m :: mask, c :: b =>
    if c = 32 then true else if m ≠ toLower c then false else matchNstrictRest mask b
  | _, _ => true

/-- The first loop, over the capital letters of the mask, which must all be there. -/
def matchNstrictHead : Bytes → Bytes → Bool
  | m :: mask, c :: b =>
    if isUpper m then if toLower m ≠ toLower c then false else matchNstrictHead mask b
    else matchNstrictRest (m :: mask) (c :: b)
  | m :: _, [] => !isUpper m
  | [], _ => true

/-- `utl::matchNstrict`; the word `b` goes on to the end of its line. -/
def matchNstrict (b mask : Bytes) : Bool := !b.isEmpty && matchNstrictHead mask b

/-- A parameter of a mask: `{int:min-max}` and `{str:min-max}`, where the upper bound may be
missing, `{ip:}`, and `{choice:..}` with the alternatives, each with all that stands behind it. -/
inductive ParamMask
  | int (min : ℤ) (max : Option ℤ)
  | str (min : ℕ) (max : Option ℕ)
  | ip
  | choice (alts : List Bytes)
  deriving DecidableEq

/-- `utl::isCorrespondW`; nothing where `isIp` reads or writes outside its rows. -/
def isCorrespondW [LongWidth] (mask : ParamMask) (s : Bytes) : Option Bool :=
  match mask with
  | .int min max =>
    some (s.all isDigit && decide (min ≤ atoi s) && max.all fun m => decide (atoi s ≤ m))
  | .str min max => some (decide (min ≤ s.length) && max.all fun m => decide (s.length ≤ m))
  | .ip => isIp s
  | .choice alts => some (alts.any (matchNstrict s))

/-- A word of a mask: a keyword with its short form in capitals, or a parameter. -/
inductive MaskWord
  | key (mask : Bytes)
  | param (mask : ParamMask)
  deriving DecidableEq

/-! ## Commands -/

/-- What a command that is not executed says of a line. -/
inductive CommandStatus
  | noAction
  | unknown
  | paramError
  | paramCountError
  deriving DecidableEq

/-- The loop of `parseCommand` over the parts and the words of the mask, and the comparison of
their numbers behind it. -/
def parseLoop (first : Bool) : List MaskWord → List CmdPart → Except CommandStatus (List Bytes)
  | .param _ :: mask, p :: parts =>
    match parseLoop false mask parts with
    | .ok params => .ok (p.text :: params)
    | .error e => .error e
  | .key k :: mask, p :: parts =>
    if matchNstrict p.rest k then parseLoop false mask parts
    else .error (if first then .unknown else .paramError)
  | [], [] => .ok []
  | _, _ => .error .paramCountError

/-- `parseCommand`: the list of parameters. -/
def parseCommand (mask : List MaskWord) (parts : List CmdPart) :
    Except CommandStatus (List Bytes) :=
  if parts = [] then .error .noAction else parseLoop true mask parts

/-- The loop of `makeAction` over the parameters, each with its mask. -/
def checkParams [LongWidth] : List MaskWord → List Bytes → Option Bool
  | .key _ :: mask, params => checkParams mask params
  | .param m :: mask, s :: params =>
    (isCorrespondW m s).bind fun ok => if ok then checkParams mask params else some false
  | _, _ => some true

/-- `Command::makeAction` up to `executeCommand`. -/
def makeAction [LongWidth] (mask : List MaskWord) (parts : List CmdPart) :
    Option (Except CommandStatus (List Bytes)) :=
  match parseCommand mask parts with
  | .error e => some (.error e)
  | .ok params =>
    (checkParams mask params).map fun ok => if ok then .ok params else .error .paramError

/-- The loop of a node over its commands.  Nothing when no command takes the line, which ends the
reading of the file with a `CmdErr`; inside nothing for a line without parts, and else the command
with its parameters. -/
def takeLine [LongWidth] {ι : Type} : List (List MaskWord × ι) → List CmdPart →
    Option (Option (ι × List Bytes))
  | [], _ => none
  | (mask, i) :: cmds, parts =>
    match makeAction mask parts with
    | none => none
    | some (.ok params) => some (some (i, params))
    | some (.error .noAction) => some none
    | some (.error _) => takeLine cmds parts

/-! ## Lines with one parameter -/

/-- A keyword with a blank behind it is all that is compared with a mask. -/
theorem matchNstrictRest_blank (mask k t : Bytes) :
    matchNstrictRest mask (k ++ 32 :: t) = matchNstrictRest mask (k ++ [32]) := by
  induction k generalizing mask with
  | nil =>
    cases mask with
    | nil => rfl
    | cons m mask => simp [matchNstrictRest]
  | cons c k ih =>
    cases mask with
    | nil => rfl
    | cons m mask =>
      simp only [List.cons_append, matchNstrictRest, ih]

theorem matchNstrictHead_blank (mask k t : Bytes) :
    matchNstrictHead mask (k ++ 32 :: t) = matchNstrictHead mask (k ++ [32]) := by
  have hupper : ∀ m : UInt8, isUpper m = true → toLower m ≠ toLower 32 := by
    intro m hm heq
    have hadd : m + 32 = 32 := by rwa [toLower, if_pos hm] at heq
    have hzero : m = 0 := by simpa using hadd
    rw [hzero] at hm
    exact absurd hm (by decide)
  induction k generalizing mask with
  | nil =>
    cases mask with
    | nil => rfl
    | cons m mask =>
      simp only [List.nil_append, matchNstrictHead]
      split
      · next hm => rw [if_pos (hupper m hm), if_pos (hupper m hm)]
      · exact matchNstrictRest_blank (m :: mask) [] t
  | cons c k ih =>
    cases mask with
    | nil => rfl
    | cons m mask =>
      have hrest := matchNstrictRest_blank (m :: mask) (c :: k) t
      simp only [List.cons_append] at hrest
      simp only [List.cons_append, matchNstrictHead, ih, hrest]

theorem matchNstrict_blank (k t mask : Bytes) :
    matchNstrict (k ++ 32 :: t) mask = matchNstrict (k ++ [32]) mask := by
  unfold matchNstrict
  rw [matchNstrictHead_blank]
  cases k <;> rfl

/-- The first word of the mask is not the keyword. -/
def refuses (b : Bytes) : List MaskWord → Bool
  | .key k :: _ => !matchNstrict b k
  | _ => false

theorem refuses_blank (k t : Bytes) (mask : List MaskWord) :
    refuses (k ++ 32 :: t) mask = refuses (k ++ [32]) mask := by
  cases mask with
  | nil => rfl
  | cons m mask =>
    cases m with
    | key k' => exact congrArg (!·) (matchNstrict_blank k t k')
    | param m => rfl

/-- The only parameter of a command, once it has been checked. -/
def oneParam [LongWidth] (m : ParamMask) : List CmdPart → Option Bytes
  | [w] => (isCorrespondW m w.text).bind fun ok => if ok then some w.text else none
  | _ => none

section

variable {ι : Type} {cmds pre post : List (List MaskWord × ι)} {mask : List MaskWord} {i : ι}
  {p : CmdPart} {ws : List CmdPart} {k : Bytes} {m : ParamMask}

theorem takeLine_refused [LongWidth] (h : refuses p.rest mask = true) :
    takeLine ((mask, i) :: cmds) (p :: ws) = takeLine cmds (p :: ws) := by
  cases mask with
  | nil => contradiction
  | cons m mask =>
    cases m with
    | param m => contradiction
    | key k =>
      have hk : ¬ matchNstrict p.rest k = true := by simpa [refuses] using h
      rw [takeLine, makeAction, parseCommand, if_neg (List.cons_ne_nil p ws), parseLoop,
        if_neg hk]
      rfl

theorem takeLine_eq_none [LongWidth] (h : ∀ c ∈ cmds, refuses p.rest c.1 = true) :
    takeLine cmds (p :: ws) = none := by
  induction cmds with
  | nil => rfl
  | cons c cmds ih =>
    rw [takeLine_refused (h c List.mem_cons_self)]
    exact ih fun c' hc' => h c' (List.mem_cons_of_mem c hc')

/-- **A keyword and one parameter**, for a command which is the only one with the keyword. -/
theorem takeLine_param [LongWidth] (hk : matchNstrict p.rest k = true)
    (hrefuse : ∀ c ∈ pre ++ post, refuses p.rest c.1 = true) :
    takeLine (pre ++ ([.key k, .param m], i) :: post) (p :: ws) =
      (oneParam m ws).map fun t => some (i, [t]) := by
  induction pre with
  | nil =>
    have hpost : takeLine post (p :: ws) = none := takeLine_eq_none hrefuse
    rw [List.nil_append, takeLine, makeAction, parseCommand, if_neg (List.cons_ne_nil p ws),
      parseLoop, if_pos hk]
    match ws with
    | [] => exact hpost
    | [w] =>
      simp only [parseLoop, checkParams, oneParam]
      cases isCorrespondW m w.text with
      | none => rfl
      | some ok =>
        cases ok with
        | false => exact hpost
        | true => rfl
    | _ :: _ :: _ => exact hpost
  | cons c pre ih =>
    rw [List.cons_append, takeLine_refused (hrefuse c List.mem_cons_self)]
    exact ih fun c' hc' => hrefuse c' (List.mem_cons_of_mem c hc')

end

/-! ## What a line says -/

section

variable {pre t s : Bytes} {n : ℕ}

/-- What one parameter behind `n` bytes of the line comes to. -/
def lineParam [LongWidth] (m : ParamMask) (n : ℕ) (t : Bytes) : Option Bytes :=
  oneParam m (splitLoop 32 none false (snprintf (299 - n) t))

theorem oneParam_eq_some_iff [LongWidth] {m : ParamMask} {ws : List CmdPart} :
    oneParam m ws = some s ↔ ws.map CmdPart.text = [s] ∧ isCorrespondW m s = some true := by
  match ws with
  | [] => simp [oneParam]
  | [w] =>
    simp only [oneParam, Option.bind_eq_some_iff, List.map_cons, List.map_nil, List.cons.injEq,
      and_true]
    constructor
    · rintro ⟨ok, hok, h⟩
      split at h
      · next htrue =>
        obtain rfl := Option.some.inj h
        exact ⟨rfl, htrue ▸ hok⟩
      · contradiction
    · rintro ⟨rfl, h⟩
      exact ⟨true, h, rfl⟩
  | w :: w' :: ws => simp [oneParam]

/-- A parameter is not longer than the text it is read from. -/
theorem length_of_lineParam [LongWidth] {m : ParamMask} (h : lineParam m n t = some s) :
    s.length ≤ t.length := by
  obtain ⟨hwords, -⟩ := oneParam_eq_some_iff.mp h
  obtain ⟨w, hw, rfl⟩ : ∃ w ∈ splitLoop 32 none false (snprintf (299 - n) t), w.text = s := by
    rw [← List.mem_map, hwords]
    exact List.mem_singleton_self s
  exact (of_mem_words hw).1.trans (isPrefix_snprintf _ _).length_le

/-- A parameter has no NUL, and it is made of the bytes of the line. -/
theorem of_lineParam [LongWidth] {m : ParamMask} (h : lineParam m n t = some s) :
    (0 : UInt8) ∉ s ∧ ∀ b ∈ s, b ∈ t := by
  obtain ⟨hwords, -⟩ := oneParam_eq_some_iff.mp h
  obtain ⟨w, hw, rfl⟩ : ∃ w ∈ splitLoop 32 none false (snprintf (299 - n) t), w.text = s := by
    rw [← List.mem_map, hwords]
    exact List.mem_singleton_self s
  have hmem := (of_mem_words hw).2
  constructor
  · intro h0
    exact zero_not_mem_cstr t (List.mem_of_mem_take (hmem 0 h0))
  · intro b hb
    exact (isPrefix_snprintf _ _).subset (hmem b hb)

/-- **A parameter without quotes** is read as it was written. -/
theorem lineParam_plain_iff [LongWidth] {m : ParamMask} (hm : isCorrespondW m t = some true →
    t.length + n ≤ 298) :
    lineParam m n t = some t ↔ PlainWord t ∧ (0 : UInt8) ∉ t ∧ isCorrespondW m t = some true := by
  have hfit : (0 : UInt8) ∉ t → isCorrespondW m t = some true → snprintf (299 - n) t = t := by
    intro h0 hcorr
    have hlen := hm hcorr
    exact snprintf_eq_self h0 (by omega)
  constructor
  · intro h
    have h0 := (of_lineParam h).1
    obtain ⟨hwords, hcorr⟩ := oneParam_eq_some_iff.mp h
    rw [hfit h0 hcorr, words_eq_self_iff] at hwords
    exact ⟨hwords, h0, hcorr⟩
  · rintro ⟨hplain, h0, hcorr⟩
    rw [lineParam, oneParam_eq_some_iff, hfit h0 hcorr, words_eq_self_iff]
    exact ⟨hplain, hcorr⟩

/-- **A parameter between quotes.** -/
theorem lineParam_quoted_iff [LongWidth] {m : ParamMask} (hm : isCorrespondW m t = some true →
    t.length + 2 + n ≤ 298) :
    lineParam m n (39 :: t ++ [39]) = some t ↔
      QuotedWord t ∧ (0 : UInt8) ∉ t ∧ isCorrespondW m t = some true := by
  have hfit : (0 : UInt8) ∉ t → isCorrespondW m t = some true →
      snprintf (299 - n) (39 :: t ++ [39]) = 39 :: t ++ [39] := by
    intro h0 hcorr
    have hlen := hm hcorr
    apply snprintf_eq_self
    · simpa using h0
    · simp only [List.cons_append, List.length_cons, List.length_append, List.length_nil]
      omega
  constructor
  · intro h
    have h0 := (of_lineParam h).1
    obtain ⟨hwords, hcorr⟩ := oneParam_eq_some_iff.mp h
    rw [hfit h0 hcorr, words_quoted_iff] at hwords
    exact ⟨hwords, h0, hcorr⟩
  · rintro ⟨hquoted, h0, hcorr⟩
    rw [lineParam, oneParam_eq_some_iff, hfit h0 hcorr, words_quoted_iff]
    exact ⟨hquoted, hcorr⟩

end

end Tacppd
