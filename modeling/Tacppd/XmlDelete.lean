/-
# Deletion in a data file

`xdb_queryStop` erases a row and then the whitespace around it.  It looks for the first byte
behind the row that is no blank, and backwards from the first byte behind the row.  If that
byte is itself no whitespace, it is found by both searches: the length of the part to be erased
is then −1, and everything behind that byte is lost.

`delete_right_iff` says when exactly the rows that match are deleted.
-/
import Tacppd.XmlFile

namespace Tacppd

/-! ## What is asked of a deletion -/

section

variable (m : XmlMachine) (d : DbTable)

/-- The rows that match are removed with whitespace around them, and the others stay: the
whitespace in front of the rows, the rows with the whitespace behind them, and the same for
what is left. -/
inductive RowsRemoved [LongWidth] : XmlGap → List (XmlRowElement × XmlGap) → XmlGap →
    List (XmlRowElement × XmlGap) → Prop
  | nil (g : XmlGap) : RowsRemoved g [] g []
  | keep (g : XmlGap) {r : XmlRowElement} {g₁ g₂ : XmlGap}
      {rows rows' : List (XmlRowElement × XmlGap)} (hr : ¬ r.Matches m d)
      (h : RowsRemoved g₁ rows g₂ rows') : RowsRemoved g ((r, g₁) :: rows) g ((r, g₂) :: rows')
  | drop {g g₁ g₂ g₃ : XmlGap} {r : XmlRowElement} {rows rows' : List (XmlRowElement × XmlGap)}
      (hr : r.Matches m d) (hg : ∃ i j, g₂.text = g.text.take i ++ g₁.text.drop j)
      (h : RowsRemoved g₂ rows g₃ rows') : RowsRemoved g ((r, g₁) :: rows) g₃ rows'

/-- A table after a deletion. -/
def TableRemoved [LongWidth] (t t' : XmlTable) : Prop :=
  if t.Named d then
    ∃ first rows, RowsRemoved m d t.first t.rows first rows ∧ t' = { t with first, rows }
  else t' = t

/-- A file after a deletion: everything but the rows and the whitespace stays. -/
def FileRemoved [LongWidth] (f f' : XmlDoc) : Prop :=
  ∃ tables, f' = { f with tables } ∧
    List.Forall₂ (fun x x' => TableRemoved m d x.1 x'.1 ∧ x.2 = x'.2) f.tables tables

/-- **The deletion is right**: it leaves the file without the rows that match, and a selection
from it finds the others. -/
def DeleteRight [LongWidth] (marked : Bytes → Bool) (parse : Bytes → Option (List XmlEvent))
    (f : XmlDoc) : Prop :=
  ∃ f' s, FileRemoved m d f f' ∧ xmlAction m .deleteRow marked d parse f.text = some s ∧
    s.dbBuff = f'.text ∧
    ∀ d' : DbTable, d'.name = d.name →
      (∀ x ∈ rowsOfTables d f.tables, (xdbCompareRow m d' x.1.attrs).isSome = true) →
      ∃ s', xmlAction m .selectRow marked d' parse s.dbBuff = some s' ∧
        s'.resMap = (matching m d' (((rowsOfTables d f.tables).map Prod.fst).filter fun r =>
          ¬ r.Matches m d)).map XmlRowElement.attrs

/-- Every row is compared, and whitespace other than a carriage return is behind each row that
matches. -/
def RowsGood [LongWidth] (rows : List (XmlRowElement × XmlGap)) : Prop :=
  ∀ x ∈ rows, (xdbCompareRow m d x.1.attrs).isSome = true ∧
    (x.1.Matches m d → ∃ c ∈ x.2.text.head?, isGap c = true)

instance [LongWidth] (rows : List (XmlRowElement × XmlGap)) : Decidable (RowsGood m d rows) :=
  inferInstanceAs (Decidable (∀ x ∈ rows, (xdbCompareRow m d x.1.attrs).isSome = true ∧
    (x.1.Matches m d → ∃ c ∈ x.2.text.head?, isGap c = true)))

end

/-! ## One row -/

section

variable {p : UInt8 → Bool} {a b : Bytes} {c : UInt8}

theorem dropWhile_append_of_head (hb : b.head? = some c) (hc : p c = false) :
    (a ++ b).dropWhile p = a.dropWhile p ++ b := by
  obtain ⟨t, rfl⟩ : ∃ t, b = c :: t := by
    rcases b with _ | ⟨x, t⟩
    · contradiction
    · exact ⟨t, by rw [List.head?_cons, Option.some.injEq] at hb; rw [hb]⟩
  induction a with
  | nil => rw [List.nil_append, List.dropWhile_cons_of_neg (by simp [hc])]; rfl
  | cons x a ih =>
    rw [List.cons_append, List.dropWhile_cons, List.dropWhile_cons, ih]
    split <;> rfl

theorem rdropWhile_append_of_last (ha : a.getLast? = some c) (hc : p c = false) :
    (a ++ b).rdropWhile p = a ++ b.rdropWhile p := by
  have hhead : a.reverse.head? = some c := by rw [List.head?_reverse, ha]
  rw [List.rdropWhile, List.reverse_append, dropWhile_append_of_head hhead hc,
    List.reverse_append, List.reverse_reverse]
  rfl

end

section

variable {s : XmlDbState} {done row rest : Bytes}

/-- **The row is cut out** with the whitespace around it, if there is some behind it. -/
theorem deleteRow_cut (hbuff : s.dbBuff = done ++ row ++ rest)
    (hpos : s.streamStart - s.buffDeviation = done.length)
    (hgap : ∃ c ∈ rest.head?, isGap c = true) (hrest : ∃ c ∈ rest, isBlank c = false) :
    deleteRow s row.length = some { s with
      dbBuff := done.rdropWhile isGap ++ rest.dropWhile isBlank
      buffDeviation := s.buffDeviation + row.length +
        ((done.length + (rest.takeWhile isBlank).length : ℕ) -
          (done.rdropWhile isGap).length) } := by
  obtain ⟨c, hhead, hc⟩ := hgap
  obtain ⟨t, rfl⟩ := List.head?_eq_some_iff.mp hhead
  have hlast : ((done ++ c :: t).take (done.length + 1)).rdropWhile isGap =
      done.rdropWhile isGap := by
    rw [CxxString.take_length_succ, List.rdropWhile_concat_pos _ _ _ hc]
  -- the part to be erased is the whitespace at the end of one text and the start of the other
  have hreplace : CxxString.replace (done ++ c :: t) (done.rdropWhile isGap).length
      ((done.length + ((c :: t).takeWhile isBlank).length : ℕ) -
        (done.rdropWhile isGap).length) [] =
        some (done.rdropWhile isGap ++ (c :: t).dropWhile isBlank) := by
    obtain ⟨w, hw⟩ := List.rdropWhile_prefix isGap done
    have hparts := List.takeWhile_append_dropWhile (p := isBlank) (l := c :: t)
    have hcut := CxxString.replace_append (done.rdropWhile isGap)
      (w ++ (c :: t).takeWhile isBlank) ((c :: t).dropWhile isBlank) []
    rw [List.append_nil, List.append_assoc, List.append_assoc, hparts, ← List.append_assoc,
      hw] at hcut
    rw [← hcut]
    congr 1
    have hlen := congrArg List.length hw
    rw [List.length_append] at hlen ⊢
    omega
  rw [deleteRow, hpos, hbuff]
  simp only [CxxString.replace_append, List.append_nil, Option.bind_some, Int.toNat_natCast,
    CxxString.toInt_findLastNotOf, hlast, CxxString.findFirstNotOf_append hrest,
    CxxString.toInt_some, hreplace, Option.map_some]

/-- **The rest of the file is lost** if the byte behind the row is no whitespace. -/
theorem deleteRow_truncates {c : UInt8} {t : Bytes} (hbuff : s.dbBuff = done ++ row ++ c :: t)
    (hpos : s.streamStart - s.buffDeviation = done.length) (hc : isGap c = false) :
    ∃ s', deleteRow s row.length = some s' ∧ s'.dbBuff = done ++ [c] := by
  have hblank : isBlank c = false := by
    rw [isGap, Bool.or_eq_false_iff] at hc
    exact hc.1
  have hlast : ((done ++ c :: t).take (done.length + 1)).rdropWhile isGap = done ++ [c] := by
    rw [CxxString.take_length_succ, List.rdropWhile_concat_neg _ _ _ (by simp [hc])]
  have hnone : ((c :: t).takeWhile isBlank).length = 0 := by
    rw [List.takeWhile_cons_of_neg (by simp [hblank])]
    rfl
  have hreplace : CxxString.replace (done ++ c :: t) (done ++ [c]).length
      ((done.length + ((c :: t).takeWhile isBlank).length : ℕ) - (done ++ [c]).length) [] =
        some (done ++ [c]) := by
    rw [List.append_cons]
    apply CxxString.replace_neg
    rw [hnone, List.length_append, List.length_singleton]
    omega
  apply Option.map_eq_some_iff.mp
  rw [deleteRow, hpos, hbuff]
  simp only [CxxString.replace_append, List.append_nil, Option.bind_some, Int.toNat_natCast,
    CxxString.toInt_findLastNotOf, hlast,
    CxxString.findFirstNotOf_append ⟨c, List.mem_cons_self, hblank⟩, CxxString.toInt_some,
    hreplace, Option.map_some]

/-- A deletion only takes away. -/
theorem deleteRow_sublist {len : ℤ} {s' : XmlDbState} (h : deleteRow s len = some s') :
    List.Sublist s'.dbBuff s.dbBuff := by
  rw [deleteRow, Option.bind_eq_some_iff] at h
  obtain ⟨buff, hfirst, h⟩ := h
  obtain ⟨buff', hsecond, rfl⟩ := Option.map_eq_some_iff.mp h
  exact (CxxString.replace_sublist hsecond).trans (CxxString.replace_sublist hfirst)

end

/-! ## The rows of a table -/

/-- What is left of the whitespace around a row. -/
def mergeGap (g g' : XmlGap) : XmlGap where
  text := g.text.rdropWhile isGap ++ g'.text.dropWhile isBlank
  space := by
    intro c hc
    rcases List.mem_append.mp hc with hc | hc
    · exact g.space c ((List.rdropWhile_prefix _ _).subset hc)
    · exact g'.space c ((List.dropWhile_suffix _).subset hc)

/-- The rows that stay, with the whitespace that stays. -/
def cutRows [LongWidth] (m : XmlMachine) (d : DbTable) (g : XmlGap) :
    List (XmlRowElement × XmlGap) → XmlGap × List (XmlRowElement × XmlGap)
  | [] => (g, [])
  | (r, g₁) :: rows =>
    if r.Matches m d then cutRows m d (mergeGap g g₁) rows
    else
      let left := cutRows m d g₁ rows
      (g, (r, left.1) :: left.2)

/-- The text of the rows with the whitespace in front of them. -/
def rowsText (g : XmlGap) (rows : List (XmlRowElement × XmlGap)) : Bytes :=
  g.text ++ xmlText (rowPieces rows)

/-- The text starts in the buffer at the place where it was in the file. -/
structure XmlAt (s : XmlDbState) (done rest : Bytes) (p : ℕ) : Prop where
  buff : s.dbBuff = done ++ rest
  pos : s.buffDeviation = p - done.length

section

variable {m : XmlMachine} {d : DbTable} {marked : Bytes → Bool} {column : ℕ → ℕ}

/-- The text of a row starts and ends with its tags. -/
theorem XmlRowElement.text_ends (r : XmlRowElement) :
    (xmlText r.pieces).head? = some 60 ∧ (xmlText r.pieces).getLast? = some 62 := by
  rw [XmlRowElement.pieces]
  cases r.close with
  | none => simp [XmlPiece.text, r.tag.head, r.tag.last]
  | some close =>
    simp [XmlPiece.text, List.head?_append, List.getLast?_append, r.tag.head, close.2.last]

/-- The text of a row and of what is behind it. -/
theorem xmlText_rowPieces_cons (r : XmlRowElement) (g : XmlGap)
    (rows : List (XmlRowElement × XmlGap)) :
    xmlText (rowPieces ((r, g) :: rows)) = xmlText r.pieces ++ rowsText g rows := by
  rw [rowPieces_cons, xmlText_append, xmlText_cons]
  rfl

/-- Rows and what follows them start with a tag. -/
theorem head_rows {rows : List (XmlRowElement × XmlGap)} {tail : Bytes}
    (htail : tail.head? = some 60) : (xmlText (rowPieces rows) ++ tail).head? = some 60 := by
  rcases rows with _ | ⟨⟨r, g⟩, rows⟩
  · exact htail
  · rw [xmlText_rowPieces_cons, List.append_assoc, List.head?_append, r.text_ends.1]
    rfl

/-- One row that matches, with whitespace behind it. -/
theorem run_row_cut [LongWidth] {s : XmlDbState} {done tail : Bytes} {p : ℕ} {g g₁ : XmlGap}
    {r : XmlRowElement} {rows : List (XmlRowElement × XmlGap)} (hskip : s.skipObj = false)
    (hat : XmlAt s (done ++ g.text) (xmlText (rowPieces ((r, g₁) :: rows)) ++ tail) p)
    (hdone : done.getLast? = some 62) (htail : tail.head? = some 60) (hr : r.Matches m d)
    (hg : ∃ c ∈ g₁.text.head?, isGap c = true) :
    ∃ s', xmlHandleAll m .deleteRow marked d (xmlEvents column p r.pieces) s = some s' ∧
      s'.skipObj = false ∧
      XmlAt s' (done ++ (mergeGap g g₁).text) (xmlText (rowPieces rows) ++ tail)
        (p + (xmlText r.pieces).length + g₁.text.length) := by
  have hhead := @head_rows rows tail htail
  have hbuff : s.dbBuff = (done ++ g.text) ++ xmlText r.pieces ++
      (g₁.text ++ (xmlText (rowPieces rows) ++ tail)) := by
    rw [hat.buff, xmlText_rowPieces_cons, rowsText]
    simp only [List.append_assoc]
  have hnext : ∃ c ∈ (g₁.text ++ (xmlText (rowPieces rows) ++ tail)).head?, isGap c = true := by
    obtain ⟨c, hc, hgap⟩ := hg
    refine ⟨c, ?_, hgap⟩
    rw [List.head?_append, hc]
    rfl
  have hrest : ∃ c ∈ g₁.text ++ (xmlText (rowPieces rows) ++ tail), isBlank c = false :=
    ⟨60, List.mem_append_right _ (List.mem_of_head? hhead), by decide⟩
  have hcut := @deleteRow_cut { s with streamStart := p, streamCount := r.tag.text.length }
    (done ++ g.text) (xmlText r.pieces) _ hbuff
    (by have hpos := hat.pos; simp only; omega) hnext hrest
  have hfirst : (done ++ g.text).rdropWhile isGap = done ++ g.text.rdropWhile isGap :=
    rdropWhile_append_of_last hdone (by decide)
  have hsecond : (g₁.text ++ (xmlText (rowPieces rows) ++ tail)).dropWhile isBlank =
      g₁.text.dropWhile isBlank ++ (xmlText (rowPieces rows) ++ tail) :=
    dropWhile_append_of_head hhead (by decide)
  have hrun : xmlHandleAll m .deleteRow marked d (xmlEvents column p r.pieces) s =
      deleteRow { s with streamStart := p, streamCount := r.tag.text.length }
        (xmlText r.pieces).length := by
    rw [XmlRowElement.Matches] at hr
    rw [run_row_delete r hskip, hr, Option.bind_some, if_pos rfl]
  refine ⟨_, hrun.trans hcut, hskip, ?_, ?_⟩
  · simp only [hfirst, hsecond, mergeGap, List.append_assoc]
  · have hlen := congrArg List.length (List.takeWhile_append_dropWhile (p := isBlank)
      (l := g₁.text ++ (xmlText (rowPieces rows) ++ tail)))
    have hpos := hat.pos
    rw [hsecond] at hlen
    simp only [hfirst, mergeGap, List.length_append] at hlen hpos ⊢
    omega

/-- **The rows of a table are cut**, if there is whitespace behind each that matches. -/
theorem run_rows_cut [LongWidth] {s : XmlDbState} {done tail : Bytes} {p : ℕ} {g : XmlGap}
    {rows : List (XmlRowElement × XmlGap)} (hgood : RowsGood m d rows) (hskip : s.skipObj = false)
    (hat : XmlAt s (done ++ g.text) (xmlText (rowPieces rows) ++ tail) p)
    (hdone : done.getLast? = some 62) (htail : tail.head? = some 60) :
    ∃ s', xmlHandleAll m .deleteRow marked d (xmlEvents column p (rowPieces rows)) s = some s' ∧
      XmlAt s' (done ++ rowsText (cutRows m d g rows).1 (cutRows m d g rows).2) tail
        (p + (xmlText (rowPieces rows)).length) := by
  induction rows generalizing s done p g with
  | nil =>
    refine ⟨s, rfl, ?_⟩
    have hat' := hat
    simp only [rowPieces, List.flatMap_nil, xmlText_nil, List.nil_append] at hat'
    simpa [cutRows, rowsText, rowPieces] using hat'
  | cons x rows ih =>
    obtain ⟨r, g₁⟩ := x
    obtain ⟨⟨hsome, hgap⟩, hrows⟩ := List.forall_mem_cons.mp hgood
    rw [run_rows_cons, cutRows]
    have hlen : p + (xmlText r.pieces).length + g₁.text.length + (xmlText (rowPieces rows)).length =
        p + (xmlText (rowPieces ((r, g₁) :: rows))).length := by
      rw [xmlText_rowPieces_cons, rowsText, List.length_append, List.length_append]
      omega
    by_cases hr : r.Matches m d
    · obtain ⟨s₁, hrun, hskip₁, hat₁⟩ := @run_row_cut m d marked column _ s done tail p g g₁ r rows
        hskip hat hdone htail hr (hgap hr)
      rw [hrun, Option.bind_some, if_pos hr, ← hlen]
      exact ih hrows hskip₁ hat₁ hdone
    · have hno : xdbCompareRow m d r.attrs = some false := by
        obtain ⟨same, hsame⟩ := Option.isSome_iff_exists.mp hsome
        cases same with
        | false => exact hsame
        | true => exact absurd hsame hr
      rw [run_row_delete r hskip, hno, Option.bind_some, if_neg Bool.false_ne_true,
        Option.bind_some, if_neg hr, ← hlen]
      obtain ⟨s', hrun, hat'⟩ := @ih { s with streamStart := -1, streamCount := -1 }
        (done ++ g.text ++ xmlText r.pieces) (p + (xmlText r.pieces).length + g₁.text.length) g₁
        hrows hskip ⟨by
          rw [hat.buff, xmlText_rowPieces_cons, rowsText]
          simp only [List.append_assoc], by
          have hpos := hat.pos
          simp only [List.length_append] at hpos ⊢
          omega⟩ (by rw [List.getLast?_append, r.text_ends.2]; rfl)
      refine ⟨s', hrun, ?_⟩
      have htext : rowsText g ((r, (cutRows m d g₁ rows).1) :: (cutRows m d g₁ rows).2) =
          g.text ++ (xmlText r.pieces ++
            rowsText (cutRows m d g₁ rows).1 (cutRows m d g₁ rows).2) := by
        rw [rowsText, xmlText_rowPieces_cons]
      simp only [htext]
      simpa only [List.append_assoc] using hat'

/-- What is cut is what is asked for. -/
theorem rowsRemoved_cutRows [LongWidth] (g : XmlGap) (rows : List (XmlRowElement × XmlGap)) :
    RowsRemoved m d g rows (cutRows m d g rows).1 (cutRows m d g rows).2 := by
  induction rows generalizing g with
  | nil => exact .nil g
  | cons x rows ih =>
    obtain ⟨r, g₁⟩ := x
    rw [cutRows]
    split
    · next hr =>
      refine .drop hr ⟨(g.text.rdropWhile isGap).length,
        g₁.text.length - (g₁.text.dropWhile isBlank).length, ?_⟩ (ih _)
      have hsuffix := List.suffix_iff_eq_drop.mp (List.dropWhile_suffix (l := g₁.text) isBlank)
      rw [← hsuffix, ← List.prefix_iff_eq_take.mp (List.rdropWhile_prefix isGap g.text)]
      rfl
    · next hr => exact .keep g hr (ih g₁)

end

/-! ## The tables of a file -/

/-- A table without the rows that match, if it is named. -/
def cutTable [LongWidth] (m : XmlMachine) (d : DbTable) (t : XmlTable) : XmlTable :=
  if t.Named d then
    { t with first := (cutRows m d t.first t.rows).1, rows := (cutRows m d t.first t.rows).2 }
  else t

def cutTables [LongWidth] (m : XmlMachine) (d : DbTable) (tables : List (XmlTable × XmlGap)) :
    List (XmlTable × XmlGap) := tables.map fun x => (cutTable m d x.1, x.2)

/-- The file without the rows that match. -/
def cutFile [LongWidth] (m : XmlMachine) (d : DbTable) (f : XmlDoc) : XmlDoc :=
  { f with tables := cutTables m d f.tables }

/-- Every table that is named is as it has to be. -/
def TablesGood [LongWidth] (m : XmlMachine) (d : DbTable) (tables : List (XmlTable × XmlGap)) :
    Prop :=
  ∀ x ∈ tables, x.1.Named d → RowsGood m d x.1.rows

instance [LongWidth] (m : XmlMachine) (d : DbTable) (tables : List (XmlTable × XmlGap)) :
    Decidable (TablesGood m d tables) :=
  inferInstanceAs (Decidable (∀ x ∈ tables, x.1.Named d → RowsGood m d x.1.rows))

section

variable {m : XmlMachine} {d : DbTable} {marked : Bytes → Bool} {column : ℕ → ℕ}

/-- What is passed over belongs to what is done. -/
theorem XmlAt.shift {s : XmlDbState} {done a rest : Bytes} {p : ℕ}
    (h : XmlAt s done (a ++ rest) p) : XmlAt s (done ++ a) rest (p + a.length) where
  buff := by rw [h.buff, List.append_assoc]
  pos := by
    rw [h.pos, List.length_append]
    omega

theorem XmlTable.text_eq (t : XmlTable) :
    xmlText t.pieces = t.tag.text ++ rowsText t.first t.rows ++ t.close.text := by
  simp [XmlTable.pieces, rowsText, XmlPiece.text]

/-- The rows of a table at their place. -/
theorem XmlAt.rows {s s' : XmlDbState} {done tail : Bytes} {p : ℕ} {t : XmlTable}
    (hat : XmlAt s done (xmlText t.pieces ++ tail) p) (hbuff : s'.dbBuff = s.dbBuff)
    (hpos : s'.buffDeviation = s.buffDeviation) :
    XmlAt s' (done ++ t.tag.text ++ t.first.text)
      (xmlText (rowPieces t.rows) ++ (t.close.text ++ tail))
      (p + t.tag.text.length + t.first.text.length) := by
  apply XmlAt.shift
  apply XmlAt.shift
  refine ⟨?_, hpos.trans hat.pos⟩
  rw [hbuff, hat.buff, t.text_eq, rowsText]
  simp only [List.append_assoc]

/-- The first table at its place. -/
theorem XmlAt.table {s : XmlDbState} {done tail : Bytes} {p : ℕ} {t : XmlTable} {g : XmlGap}
    {tables : List (XmlTable × XmlGap)}
    (hat : XmlAt s done (xmlText (tablePieces ((t, g) :: tables)) ++ tail) p) :
    XmlAt s done (xmlText t.pieces ++ (g.text ++ (xmlText (tablePieces tables) ++ tail))) p := by
  refine ⟨?_, hat.pos⟩
  rw [hat.buff, tablePieces_cons, xmlText_append, xmlText_cons]
  simp only [List.append_assoc, XmlPiece.text]

/-- **A table is cut.** -/
theorem run_table_cut [LongWidth] {s : XmlDbState} {done tail : Bytes} {p : ℕ} {t : XmlTable}
    (hgood : t.Named d → RowsGood m d t.rows) (hat : XmlAt s done (xmlText t.pieces ++ tail) p) :
    ∃ s', xmlHandleAll m .deleteRow marked d (xmlEvents column p t.pieces) s = some s' ∧
      XmlAt s' (done ++ xmlText (cutTable m d t).pieces) tail
        (p + (xmlText t.pieces).length) := by
  obtain ⟨i, n, hrun⟩ := @run_table m .deleteRow marked d s column p _ t nofun
  rw [hrun]
  by_cases hnamed : t.Named d
  · have hrows := @XmlAt.rows s
      { s with skipObj := strcasecmp t.name d.name, streamStart := i, streamCount := n } _ _ _ _
      hat rfl rfl
    obtain ⟨s', hrun', hat'⟩ := @run_rows_cut m d marked column _
      { s with skipObj := strcasecmp t.name d.name, streamStart := i, streamCount := n }
      (done ++ t.tag.text) (t.close.text ++ tail) _ t.first t.rows (hgood hnamed) hnamed hrows
      (by rw [List.getLast?_append, t.tag.last]; rfl) (by rw [List.head?_append, t.close.head]; rfl)
    refine ⟨_, by rw [hrun', Option.map_some], ?_⟩
    have hclose := hat'.shift
    refine ⟨?_, ?_⟩
    · rw [hclose.buff, cutTable, if_pos hnamed, XmlTable.text_eq]
      simp only [List.append_assoc]
    · have hpos := hclose.pos
      rw [cutTable, if_pos hnamed, XmlTable.text_eq, XmlTable.text_eq]
      simp only [rowsText, List.length_append] at hpos ⊢
      omega
  · have hskip : strcasecmp t.name d.name = true := by simpa [XmlTable.Named] using hnamed
    refine ⟨_, by rw [run_rows_skip t.rows hskip, Option.map_some], ?_⟩
    have hshift := hat.shift
    rw [cutTable, if_neg hnamed]
    exact ⟨hshift.buff, hshift.pos⟩

/-- **The tables are cut.** -/
theorem run_tables_cut [LongWidth] {s : XmlDbState} {done tail : Bytes} {p : ℕ}
    {tables : List (XmlTable × XmlGap)} (hgood : TablesGood m d tables)
    (hat : XmlAt s done (xmlText (tablePieces tables) ++ tail) p) :
    ∃ s', xmlHandleAll m .deleteRow marked d (xmlEvents column p (tablePieces tables)) s = some s' ∧
      s'.dbBuff = done ++ xmlText (tablePieces (cutTables m d tables)) ++ tail := by
  induction tables generalizing s done p with
  | nil => exact ⟨s, rfl, by simpa [cutTables, tablePieces] using hat.buff⟩
  | cons x tables ih =>
    obtain ⟨t, g⟩ := x
    obtain ⟨htable, htables⟩ := List.forall_mem_cons.mp hgood
    obtain ⟨s₁, hrun, hat₁⟩ := @run_table_cut m d marked column _ s done _ p t htable hat.table
    obtain ⟨s', hrest, hbuff⟩ := ih htables hat₁.shift
    refine ⟨s', by rw [run_tables_cons, hrun, Option.bind_some, hrest], ?_⟩
    rw [hbuff, cutTables, cutTables, List.map_cons, tablePieces_cons, xmlText_append, xmlText_cons]
    simp only [List.append_assoc, XmlPiece.text]

/-- The tables at their place. -/
theorem xmlAt_tables (f : XmlDoc) :
    XmlAt ⟨f.text, [], false, 0, 0, 0⟩ (f.prolog ++ f.tag.text ++ f.first.text)
      (xmlText (tablePieces f.tables) ++ (f.close.text ++ f.after.text))
      (f.prolog.length + f.tag.text.length + f.first.text.length) := by
  refine ⟨f.text_eq, ?_⟩
  simp only [List.length_append]
  omega

/-- **The file is cut.** -/
theorem run_file_cut [LongWidth] {f : XmlDoc} (hgood : TablesGood m d f.tables)
    {parse : Bytes → Option (List XmlEvent)}
    (hparse : parse f.text = some (xmlEvents column 0 f.pieces)) :
    ∃ s, xmlAction m .deleteRow marked d parse f.text = some s ∧
      s.dbBuff = (cutFile m d f).text := by
  obtain ⟨s, hrun, hbuff⟩ := @run_tables_cut m d marked column _ _ _ _ _ f.tables hgood
    (xmlAt_tables f)
  refine ⟨{ s with skipObj := true }, ?_, ?_⟩
  · rw [xmlAction, hparse, Option.bind_some, run_file f (by decide), hrun, Option.map_some]
  · simp only [hbuff, XmlDoc.text_eq, cutFile, List.append_assoc]

/-- What is cut is what is asked for. -/
theorem tableRemoved_cutTable [LongWidth] (t : XmlTable) : TableRemoved m d t (cutTable m d t) := by
  rw [TableRemoved, cutTable]
  split
  · exact ⟨_, _, rowsRemoved_cutRows t.first t.rows, rfl⟩
  · rfl

theorem fileRemoved_cutFile [LongWidth] (f : XmlDoc) : FileRemoved m d f (cutFile m d f) := by
  refine ⟨cutTables m d f.tables, rfl, ?_⟩
  rw [cutTables, List.forall₂_map_right_iff, List.forall₂_same]
  exact fun x _ => ⟨tableRemoved_cutTable x.1, rfl⟩

end

/-! ## What is lost otherwise -/

/-- The tags of a text, by their first bytes. -/
def marks (b : Bytes) : ℕ := b.count 60

theorem marks_append (a b : Bytes) : marks (a ++ b) = marks a + marks b := List.count_append

theorem marks_gap (g : XmlGap) : marks g.text = 0 := by
  rw [marks, List.count_eq_zero]
  intro hmem
  have hspace := g.space 60 hmem
  revert hspace
  decide

theorem marks_tag_pos (t : XmlTag) : 0 < marks t.text :=
  List.count_pos_iff.mpr (List.mem_of_head? t.head)

/-- The tags of the rows that do not match. -/
def rowMarks [LongWidth] (m : XmlMachine) (d : DbTable) : List (XmlRowElement × XmlGap) → ℕ
  | [] => 0
  | (r, _) :: rows =>
    (if r.Matches m d then 0 else marks (xmlText r.pieces)) + rowMarks m d rows

/-- The tags of a table that stay. -/
def tableMarks [LongWidth] (m : XmlMachine) (d : DbTable) (t : XmlTable) : ℕ :=
  marks t.tag.text +
    (if t.Named d then rowMarks m d t.rows else marks (xmlText (rowPieces t.rows))) +
    marks t.close.text

/-- The tags of all tables that stay. -/
def tablesMarks [LongWidth] (m : XmlMachine) (d : DbTable) (tables : List (XmlTable × XmlGap)) :
    ℕ :=
  (tables.map fun x => tableMarks m d x.1).sum

section

variable {m : XmlMachine} {d : DbTable} {marked : Bytes → Bool} {column : ℕ → ℕ}

/-! ### What the claim leaves -/

theorem RowsRemoved.marks_eq [LongWidth] {g g' : XmlGap}
    {rows rows' : List (XmlRowElement × XmlGap)}
    (h : RowsRemoved m d g rows g' rows') : marks (rowsText g' rows') = rowMarks m d rows := by
  induction h with
  | nil g => simp [rowsText, rowPieces, rowMarks, marks_gap]
  | keep g hr h ih =>
    rw [rowsText, xmlText_rowPieces_cons, marks_append, marks_append, marks_gap, ih, rowMarks,
      if_neg hr, Nat.zero_add]
  | drop hr hg h ih => rw [ih, rowMarks, if_pos hr, Nat.zero_add]

theorem TableRemoved.marks_eq [LongWidth] {t t' : XmlTable} (h : TableRemoved m d t t') :
    marks (xmlText t'.pieces) = tableMarks m d t := by
  rw [TableRemoved] at h
  rw [tableMarks]
  split at h
  · next hnamed =>
    obtain ⟨first, rows, hrows, rfl⟩ := h
    rw [XmlTable.text_eq, marks_append, marks_append, hrows.marks_eq, if_pos hnamed]
  · next hnamed =>
    subst h
    rw [XmlTable.text_eq, rowsText, marks_append, marks_append, marks_append, marks_gap,
      if_neg hnamed, Nat.zero_add]

theorem marks_tables [LongWidth] {tables tables' : List (XmlTable × XmlGap)}
    (h : List.Forall₂ (fun x x' => TableRemoved m d x.1 x'.1 ∧ x.2 = x'.2) tables tables') :
    marks (xmlText (tablePieces tables')) = tablesMarks m d tables := by
  induction h with
  | nil => rfl
  | cons hx hxs ih =>
    rw [tablePieces_cons, xmlText_append, xmlText_cons, marks_append, marks_append, ih,
      hx.1.marks_eq, tablesMarks, tablesMarks, List.map_cons, List.sum_cons, XmlPiece.text,
      marks_gap, Nat.zero_add]

theorem FileRemoved.marks_eq [LongWidth] {f f' : XmlDoc} (h : FileRemoved m d f f') :
    marks f'.text = marks f.prolog + marks f.tag.text + tablesMarks m d f.tables +
      marks f.close.text := by
  obtain ⟨tables, rfl, hall⟩ := h
  rw [XmlDoc.text_eq]
  simp only [marks_append, marks_gap, marks_tables hall, Nat.add_zero]
  omega

/-! ### What the code leaves -/

/-- The start of a table changes nothing in the buffer. -/
theorem tableAttrs_dbBuff {attrs : XmlRow} {s s' : XmlDbState} {index count col : ℕ}
    (h : tableAttrs m .deleteRow marked d index count col attrs s = some s') :
    s'.dbBuff = s.dbBuff := by
  induction attrs generalizing s with
  | nil =>
    obtain rfl := Option.some.inj h
    rfl
  | cons a attrs ih =>
    rw [tableAttrs] at h
    split at h
    · exact ih h
    · split at h
      · exact @ih { s with skipObj := true } h
      · simp only [reduceCtorEq, if_false] at h
        exact @ih { s with skipObj := false, streamStart := index, streamCount := count } h

/-- The start of an element changes nothing in the buffer. -/
theorem xdbQueryStart_dbBuff [LongWidth] {s s' : XmlDbState} {el : Bytes} {attrs : XmlRow}
    {index count col : ℕ}
    (h : xdbQueryStart m .deleteRow marked d s el attrs index count col = some s') :
    s'.dbBuff = s.dbBuff := by
  rw [xdbQueryStart] at h
  split at h
  · exact tableAttrs_dbBuff h
  · rw [if_neg (by simp)] at h
    split at h
    · obtain rfl := Option.some.inj h
      rfl
    · split at h
      · obtain ⟨same, -, rfl⟩ := Option.map_eq_some_iff.mp h
        split <;> rfl
      · obtain rfl := Option.some.inj h
        rfl

/-- The end of an element takes away a row at most. -/
theorem xdbQueryStop_sublist {s s' : XmlDbState} {el : Bytes} {index count : ℕ}
    (h : xdbQueryStop m .deleteRow marked d s el index count = some s') :
    List.Sublist s'.dbBuff s.dbBuff := by
  rw [xdbQueryStop] at h
  split at h
  · obtain rfl := Option.some.inj h
    exact List.Sublist.refl _
  · split at h
    · simp only at h
      split at h
      · obtain rfl := Option.some.inj h
        exact List.Sublist.refl _
      · exact deleteRow_sublist h
    · obtain rfl := Option.some.inj h
      exact List.Sublist.refl _

/-- **The handlers of a deletion only take away.** -/
theorem xmlHandleAll_sublist [LongWidth] {es : List XmlEvent} {s s' : XmlDbState}
    (h : xmlHandleAll m .deleteRow marked d es s = some s') :
    List.Sublist s'.dbBuff s.dbBuff := by
  induction es generalizing s with
  | nil =>
    obtain rfl := Option.some.inj h
    exact List.Sublist.refl _
  | cons e es ih =>
    obtain ⟨s₁, he, hes⟩ := Option.bind_eq_some_iff.mp h
    refine (ih hes).trans ?_
    cases e with
    | start el attrs index count col => rw [xdbQueryStart_dbBuff he]
    | stop el index count => exact @xdbQueryStop_sublist m d marked s s₁ el index count he

theorem marks_le_of_sublist {a b : Bytes} (h : List.Sublist a b) : marks a ≤ marks b :=
  h.count_le 60

/-- One row that matches, with no whitespace behind it. -/
theorem run_row_lost [LongWidth] {s s' : XmlDbState} {done tail : Bytes} {p : ℕ} {g g₁ : XmlGap}
    {r : XmlRowElement} {rows : List (XmlRowElement × XmlGap)} (hskip : s.skipObj = false)
    (hat : XmlAt s (done ++ g.text) (xmlText (rowPieces ((r, g₁) :: rows)) ++ tail) p)
    (htail : tail.head? = some 60) (hr : r.Matches m d)
    (hg : ¬ ∃ c ∈ g₁.text.head?, isGap c = true)
    (hrun : xmlHandleAll m .deleteRow marked d (xmlEvents column p r.pieces) s = some s') :
    marks s'.dbBuff ≤ marks done + 1 := by
  obtain ⟨c, t, ht, hc⟩ : ∃ c t, g₁.text ++ (xmlText (rowPieces rows) ++ tail) = c :: t ∧
      isGap c = false := by
    cases hgap : g₁.text with
    | nil =>
      obtain ⟨t, ht⟩ := List.head?_eq_some_iff.mp (@head_rows rows tail htail)
      exact ⟨60, t, ht, by decide⟩
    | cons c t =>
      refine ⟨c, t ++ (xmlText (rowPieces rows) ++ tail), rfl, ?_⟩
      by_contra hno
      exact hg ⟨c, by rw [hgap, List.head?_cons]; rfl, by simpa using hno⟩
  have hbuff : s.dbBuff = (done ++ g.text) ++ xmlText r.pieces ++ c :: t := by
    rw [hat.buff, xmlText_rowPieces_cons, rowsText, ← ht]
    simp only [List.append_assoc]
  obtain ⟨s₁, hcut, hleft⟩ := @deleteRow_truncates
    { s with streamStart := p, streamCount := r.tag.text.length } (done ++ g.text)
    (xmlText r.pieces) c t hbuff (by have hpos := hat.pos; simp only; omega) hc
  rw [XmlRowElement.Matches] at hr
  rw [run_row_delete r hskip, hr, Option.bind_some, if_pos rfl, hcut, Option.some.injEq] at hrun
  rw [← hrun, hleft, marks_append, marks_append, marks_gap]
  have hone : marks [c] ≤ 1 := List.count_le_length
  omega

/-- **The tags that are left** by the rows of a table, where one of them is not as it has to
be. -/
theorem run_rows_lost [LongWidth] {s s' : XmlDbState} {done tail : Bytes} {p : ℕ} {g : XmlGap}
    {rows : List (XmlRowElement × XmlGap)} (hbad : ¬ RowsGood m d rows) (hskip : s.skipObj = false)
    (hat : XmlAt s (done ++ g.text) (xmlText (rowPieces rows) ++ tail) p)
    (hdone : done.getLast? = some 62) (htail : tail.head? = some 60)
    (hrun : xmlHandleAll m .deleteRow marked d (xmlEvents column p (rowPieces rows)) s = some s') :
    marks s'.dbBuff ≤ marks done + rowMarks m d rows + 1 := by
  induction rows generalizing s done p g with
  | nil => exact absurd (fun x hx => by simp at hx) hbad
  | cons x rows ih =>
    obtain ⟨r, g₁⟩ := x
    rw [run_rows_cons] at hrun
    obtain ⟨s₁, hfirst, hrest⟩ := Option.bind_eq_some_iff.mp hrun
    obtain ⟨same, hsame⟩ : ∃ same, xdbCompareRow m d r.attrs = some same := by
      rw [run_row_delete r hskip] at hfirst
      obtain ⟨same, hsame, -⟩ := Option.bind_eq_some_iff.mp hfirst
      exact ⟨same, hsame⟩
    rw [rowMarks]
    cases same with
    | true =>
      have hr : r.Matches m d := hsame
      rw [if_pos hr]
      by_cases hg : ∃ c ∈ g₁.text.head?, isGap c = true
      · have hbad' : ¬ RowsGood m d rows := by
          intro hrows
          exact hbad (List.forall_mem_cons.mpr ⟨⟨by rw [hsame]; rfl, fun _ => hg⟩, hrows⟩)
        obtain ⟨s₂, hcut, hskip₂, hat₂⟩ :=
          @run_row_cut m d marked column _ s done tail p g g₁ r rows hskip hat hdone htail hr hg
        obtain rfl := Option.some.inj (hcut.symm.trans hfirst)
        have hle := ih hbad' hskip₂ hat₂ hdone hrest
        omega
      · have hle := run_row_lost hskip hat htail hr hg hfirst
        have hsub := marks_le_of_sublist (xmlHandleAll_sublist hrest)
        omega
    | false =>
      have hr : ¬ r.Matches m d := by simp [XmlRowElement.Matches, hsame]
      have hbad' : ¬ RowsGood m d rows := by
        intro hrows
        exact hbad (List.forall_mem_cons.mpr
          ⟨⟨by rw [hsame]; rfl, fun hyes => absurd hyes hr⟩, hrows⟩)
      rw [run_row_delete r hskip, hsame, Option.bind_some, if_neg Bool.false_ne_true,
        Option.some.injEq] at hfirst
      subst hfirst
      have hle := @ih { s with streamStart := -1, streamCount := -1 }
        (done ++ g.text ++ xmlText r.pieces) (p + (xmlText r.pieces).length + g₁.text.length) g₁
        hbad' hskip ⟨by
          rw [hat.buff, xmlText_rowPieces_cons, rowsText]
          simp only [List.append_assoc], by
          have hpos := hat.pos
          simp only [List.length_append] at hpos ⊢
          omega⟩ (by rw [List.getLast?_append, r.text_ends.2]; rfl) hrest
      rw [marks_append, marks_append, marks_gap] at hle
      rw [if_neg hr]
      omega

/-- The tags that are left by a table. -/
theorem run_table_lost [LongWidth] {s s' : XmlDbState} {done tail : Bytes} {p : ℕ} {t : XmlTable}
    (hbad : ¬ (t.Named d → RowsGood m d t.rows)) (hat : XmlAt s done (xmlText t.pieces ++ tail) p)
    (hrun : xmlHandleAll m .deleteRow marked d (xmlEvents column p t.pieces) s = some s') :
    marks s'.dbBuff ≤ marks done + tableMarks m d t := by
  obtain ⟨hnamed, hrows⟩ := Classical.not_imp.mp hbad
  obtain ⟨i, n, hevents⟩ := @run_table m .deleteRow marked d s column p _ t nofun
  rw [hevents] at hrun
  obtain ⟨s₁, hrun₁, rfl⟩ := Option.map_eq_some_iff.mp hrun
  have hat₁ := @XmlAt.rows s
    { s with skipObj := strcasecmp t.name d.name, streamStart := i, streamCount := n } _ _ _ _
    hat rfl rfl
  have hle := @run_rows_lost m d marked column _
    { s with skipObj := strcasecmp t.name d.name, streamStart := i, streamCount := n } s₁
    (done ++ t.tag.text) (t.close.text ++ tail) _ t.first t.rows hrows hnamed hat₁
    (by rw [List.getLast?_append, t.tag.last]; rfl) (by rw [List.head?_append, t.close.head]; rfl)
    hrun₁
  have hclose := marks_tag_pos t.close
  rw [marks_append] at hle
  rw [tableMarks, if_pos hnamed]
  simp only
  omega

/-- **The tags that are left by the tables**, where one of them is not as it has to be. -/
theorem run_tables_lost [LongWidth] {s s' : XmlDbState} {done tail : Bytes} {p : ℕ}
    {tables : List (XmlTable × XmlGap)} (hbad : ¬ TablesGood m d tables)
    (hat : XmlAt s done (xmlText (tablePieces tables) ++ tail) p)
    (hrun : xmlHandleAll m .deleteRow marked d (xmlEvents column p (tablePieces tables)) s =
      some s') : marks s'.dbBuff ≤ marks done + tablesMarks m d tables := by
  induction tables generalizing s done p with
  | nil => exact absurd (fun x hx => by simp at hx) hbad
  | cons x tables ih =>
    obtain ⟨t, g⟩ := x
    rw [run_tables_cons] at hrun
    obtain ⟨s₁, hfirst, hrest⟩ := Option.bind_eq_some_iff.mp hrun
    simp only [tablesMarks, List.map_cons, List.sum_cons]
    by_cases htable : t.Named d → RowsGood m d t.rows
    · have hbad' : ¬ TablesGood m d tables := fun htables =>
        hbad (List.forall_mem_cons.mpr ⟨htable, htables⟩)
      obtain ⟨s₂, hcut, hat₂⟩ := @run_table_cut m d marked column _ s done _ p t htable hat.table
      obtain rfl := Option.some.inj (hcut.symm.trans hfirst)
      have hle := ih hbad' hat₂.shift hrest
      rw [marks_append, marks_append, marks_gap, (tableRemoved_cutTable t).marks_eq,
        tablesMarks] at hle
      omega
    · have hle := run_table_lost htable hat.table hfirst
      have hsub := marks_le_of_sublist (xmlHandleAll_sublist hrest)
      omega

end

/-! ## When a deletion is right -/

section

variable {m : XmlMachine} {d : DbTable} {marked : Bytes → Bool} {reads : XmlPiece → Prop}
  {parse : Bytes → Option (List XmlEvent)}

/-- The rows that are left are rows of the table. -/
theorem cutRows_rows [LongWidth] (g : XmlGap) (rows : List (XmlRowElement × XmlGap)) :
    (cutRows m d g rows).2.map Prod.fst =
      (rows.map Prod.fst).filter fun r => ¬ r.Matches m d := by
  induction rows generalizing g with
  | nil => rfl
  | cons x rows ih =>
    obtain ⟨r, g₁⟩ := x
    rw [cutRows, List.map_cons, List.filter_cons]
    by_cases hr : r.Matches m d
    · rw [if_pos hr, ih, if_neg (by simpa using hr)]
    · rw [if_neg hr, if_pos (by simpa using hr), List.map_cons, ih]

/-- The rows of the named tables that are left. -/
theorem rowsOfTables_cutTables [LongWidth] {d' : DbTable} (hname : d'.name = d.name)
    (tables : List (XmlTable × XmlGap)) :
    (rowsOfTables d' (cutTables m d tables)).map Prod.fst =
      ((rowsOfTables d tables).map Prod.fst).filter fun r => ¬ r.Matches m d := by
  induction tables with
  | nil => rfl
  | cons x tables ih =>
    have hnamed : (cutTable m d x.1).Named d' ↔ x.1.Named d := by
      rw [XmlTable.Named, XmlTable.Named, hname, cutTable]
      split <;> rfl
    rw [rowsOfTables, rowsOfTables] at ih ⊢
    rw [cutTables] at ih ⊢
    simp only [List.map_cons, List.flatMap_cons, List.map_append, List.filter_append, ih, hnamed]
    congr 1
    split
    · next hd => rw [cutTable, if_pos hd, cutRows_rows]
    · rfl

theorem mem_cutTable [LongWidth] {t : XmlTable} {x : XmlPiece} (hx : x.isGap = false)
    (h : x ∈ (cutTable m d t).pieces) : x ∈ t.pieces := by
  rw [cutTable] at h
  split at h
  · have hno : ∀ g : XmlGap, x ≠ .gap g.text := by
      rintro g rfl
      contradiction
    simp only [XmlTable.pieces, List.mem_cons, List.mem_append, hno, false_or] at h ⊢
    rcases h with h | h | h
    · exact .inl h
    · refine .inr (.inl ?_)
      rw [mem_rowPieces_iff hx, cutRows_rows] at h
      obtain ⟨r, hr, hxr⟩ := h
      exact (mem_rowPieces_iff hx).mpr ⟨r, (List.mem_filter.mp hr).1, hxr⟩
    · exact .inr (.inr h)
  · exact h

/-- The pieces of what is left are read as before. -/
theorem read_cutFile [LongWidth] {f : XmlDoc} (h : f.Read reads) : (cutFile m d f).Read reads := by
  intro x hmem
  by_cases hx : x.isGap = true
  · exact .inl hx
  · have hgap : x.isGap = false := by simpa using hx
    refine h x ?_
    simp only [cutFile, XmlDoc.pieces, List.mem_cons, List.mem_append] at hmem ⊢
    rcases hmem with hmem | hmem | hmem | hmem | hmem
    · exact .inl hmem
    · exact .inr (.inl hmem)
    · exact .inr (.inr (.inl hmem))
    · refine .inr (.inr (.inr (.inl ?_)))
      obtain ⟨y, hy, hxy⟩ := (mem_tablePieces_iff hgap).mp hmem
      obtain ⟨z, hz, rfl⟩ := List.mem_map.mp hy
      exact (mem_tablePieces_iff hgap).mpr ⟨z, hz, mem_cutTable hgap hxy⟩
    · exact .inr (.inr (.inr (.inr hmem)))

/-- A deletion makes no file longer. -/
theorem xmlAction_sublist [LongWidth] {b : Bytes} {s : XmlDbState}
    (h : xmlAction m .deleteRow marked d parse b = some s) : List.Sublist s.dbBuff b := by
  obtain ⟨events, -, hrun⟩ := Option.bind_eq_some_iff.mp h
  exact xmlHandleAll_sublist hrun

/-- A row without whitespace behind it is not deleted as it should be. -/
theorem tablesGood_of_deleteRight [LongWidth] (hexpat : ExpatReports reads parse) (f : XmlDataFile)
    (hread : f.Read reads) (h : DeleteRight m d marked parse f.toXmlDoc) :
    TablesGood m d f.tables := by
  obtain ⟨column, -, hparse⟩ := hexpat f hread
  obtain ⟨f', s, hremoved, hrun, hbuff, -⟩ := h
  by_contra hbad
  rw [xmlAction, hparse, Option.bind_some, run_file f.toXmlDoc (by decide)] at hrun
  obtain ⟨s₁, hrun₁, rfl⟩ := Option.map_eq_some_iff.mp hrun
  -- a tag at least is missing, the one that ends the file
  have hle := run_tables_lost hbad (xmlAt_tables f.toXmlDoc) hrun₁
  have heq := hremoved.marks_eq
  have hclose := marks_tag_pos f.close
  rw [← hbuff] at heq
  simp only [marks_append, marks_gap] at hle heq
  omega

/-- The rows are deleted, and a selection finds the others. -/
theorem deleteRight_of_tablesGood [LongWidth] (hexpat : ExpatReports reads parse) (f : XmlDataFile)
    (hread : f.Read reads) (hgood : TablesGood m d f.tables) :
    DeleteRight m d marked parse f.toXmlDoc := by
  obtain ⟨column, -, hparse⟩ := hexpat f hread
  obtain ⟨s, hrun, hbuff⟩ := @run_file_cut m d marked column _ f.toXmlDoc hgood parse hparse
  refine ⟨cutFile m d f.toXmlDoc, s, fileRemoved_cutFile f.toXmlDoc, hrun, hbuff, ?_⟩
  intro d' hname hall
  have hshort : (cutFile m d f.toXmlDoc).text.length < 2147483648 := by
    rw [← hbuff]
    exact lt_of_le_of_lt (xmlAction_sublist hrun).length_le f.short
  obtain ⟨column', -, hparse'⟩ := hexpat ⟨cutFile m d f.toXmlDoc, hshort⟩ (read_cutFile hread)
  have hleft := @rowsOfTables_cutTables m d _ d' hname f.tables
  have hall' : ∀ x ∈ rowsOfTables d' (cutFile m d f.toXmlDoc).tables,
      (xdbCompareRow m d' x.1.attrs).isSome = true := by
    intro x hx
    have hmem : x.1 ∈ (rowsOfTables d' (cutTables m d f.tables)).map Prod.fst :=
      List.mem_map_of_mem hx
    rw [hleft] at hmem
    obtain ⟨y, hy, heq⟩ := List.mem_map.mp (List.mem_filter.mp hmem).1
    rw [← heq]
    exact hall y hy
  obtain ⟨s', hselect, hres⟩ := @run_file_select m marked d' column' _ (cutFile m d f.toXmlDoc)
    parse hparse' hall'
  refine ⟨s', by rw [hbuff, hselect], ?_⟩
  rw [hres, ← hleft]
  rfl

/-- **When a deletion is right.** -/
theorem delete_right_iff [LongWidth] (hexpat : ExpatReports reads parse) (f : XmlDataFile)
    (hread : f.Read reads) :
    DeleteRight m d marked parse f.toXmlDoc ↔ TablesGood m d f.tables :=
  ⟨tablesGood_of_deleteRight hexpat f hread, deleteRight_of_tablesGood hexpat f hread⟩

end

/-! ## Two rows -/

/-- The rows of the table with `a` equal to 1. -/
def sampleRequest : DbTable := ⟨str "t", [⟨str "a", true, .int 1⟩]⟩

/-- A line for each row. -/
def sampleLines : XmlDataFile where
  toXmlDoc := sampleDoc newlineGap
  short := sampleDoc_short

/-- No whitespace between the rows. -/
def sampleAdjacent : XmlDataFile where
  toXmlDoc := sampleDoc ⟨[], by decide +kernel⟩
  short := by decide +kernel

/-- A row on a line of its own is deleted. -/
theorem delete_right_lines :
    DeleteRight .sample sampleRequest (fun _ => false) (fun b => some (sampleScan 0 none b))
      sampleLines.toXmlDoc :=
  (delete_right_iff expatReports_sample sampleLines (by decide +kernel)).mpr (by decide +kernel)

/-- **Adjacent rows**: the second one is lost with all that is behind it. -/
theorem delete_wrong_adjacent :
    ¬ (∀ (m : XmlMachine) (d : DbTable) (marked : Bytes → Bool) (reads : XmlPiece → Prop)
      (parse : Bytes → Option (List XmlEvent)) (f : XmlDataFile), ExpatReports reads parse →
        f.Read reads → DeleteRight m d marked parse f.toXmlDoc) := by
  intro h
  have hright := h .sample sampleRequest (fun _ => false) sampleReads _ sampleAdjacent
    expatReports_sample (by decide +kernel)
  have hgood := tablesGood_of_deleteRight expatReports_sample sampleAdjacent (by decide +kernel)
    hright
  revert hgood
  decide +kernel

end Tacppd
