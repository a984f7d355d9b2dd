/-
# The data files of the xml-db driver

A data file is a database with tables, and a table is a sequence of rows with whitespace
between them.  `ExpatReports` is what is asked of expat: for a data file it reports the
elements in their order, with the positions of their tags.

The lemmas say what the handlers make of the events of one row, one table and one file.
-/
import Tacppd.XmlDb

namespace Tacppd

/-! ## Texts in pieces -/

/-- A part of a text: whitespace, something without an element, or a tag. -/
inductive XmlPiece
  | gap (text : Bytes)
  | quiet (text : Bytes)
  | start (tag el : Bytes) (attrs : XmlRow)
  | stop (tag el : Bytes)
  | empty (tag el : Bytes) (attrs : XmlRow)
  deriving DecidableEq, Repr

namespace XmlPiece

def text : XmlPiece → Bytes
  | gap text | quiet text => text
  | start tag _ _ | stop tag _ | empty tag _ _ => tag

/-- What is reported of a piece at a position.  The end of an empty element is behind it. -/
def events (column : ℕ → ℕ) (p : ℕ) : XmlPiece → List XmlEvent
  | gap _ | quiet _ => []
  | start tag el attrs => [.start el attrs p tag.length (column p)]
  | stop tag el => [.stop el p tag.length]
  | empty tag el attrs =>
    [.start el attrs p tag.length (column p), .stop el (p + tag.length) 0]

def isGap : XmlPiece → Bool
  | gap _ => true
  | _ => false

end XmlPiece

/-- The text of some pieces. -/
def xmlText (ps : List XmlPiece) : Bytes := (ps.map XmlPiece.text).flatten

/-- Their events, one piece behind the other. -/
def xmlEvents (column : ℕ → ℕ) : ℕ → List XmlPiece → List XmlEvent
  | _, [] => []
  | p, x :: ps => x.events column p ++ xmlEvents column (p + x.text.length) ps

@[simp] theorem xmlText_nil : xmlText [] = [] := rfl

@[simp] theorem xmlText_cons (x : XmlPiece) (ps : List XmlPiece) :
    xmlText (x :: ps) = x.text ++ xmlText ps := rfl

@[simp] theorem xmlText_append (ps qs : List XmlPiece) :
    xmlText (ps ++ qs) = xmlText ps ++ xmlText qs := by
  rw [xmlText, List.map_append, List.flatten_append]
  rfl

theorem xmlEvents_append (column : ℕ → ℕ) (p : ℕ) (ps qs : List XmlPiece) :
    xmlEvents column p (ps ++ qs) =
      xmlEvents column p ps ++ xmlEvents column (p + (xmlText ps).length) qs := by
  induction ps generalizing p with
  | nil => rfl
  | cons x ps ih =>
    rw [List.cons_append, xmlEvents, xmlEvents, ih, List.append_assoc, xmlText_cons,
      List.length_append, Nat.add_assoc]

/-! ## Data files -/

/-- A tag starts with `<` and ends with `>`. -/
structure XmlTag where
  text : Bytes
  head : text.head? = some 60
  last : text.getLast? = some 62

/-- Blanks, tabs and line ends. -/
structure XmlGap where
  text : Bytes
  space : ∀ c ∈ text, c = 32 ∨ c = 9 ∨ c = 10 ∨ c = 13

/-- An element `row`: one tag, or two of them with something without an element between. -/
structure XmlRowElement where
  tag : XmlTag
  el : Bytes
  attrs : XmlRow
  close : Option (Bytes × XmlTag)
  isRow : strcasecmp el (str "row") = false

/-- An element `table` with one name. -/
structure XmlTable where
  tag : XmlTag
  el : Bytes
  attrs : XmlRow
  key : Bytes
  name : Bytes
  first : XmlGap
  rows : List (XmlRowElement × XmlGap)
  close : XmlTag
  isTable : strcasecmp el (str "table") = false
  attrs_name : attrs.filter (fun a => !strcasecmp a.1 (str "name")) = [(key, name)]

/-- A database with its tables, after a prolog. -/
structure XmlDoc where
  prolog : Bytes
  tag : XmlTag
  el : Bytes
  attrs : XmlRow
  first : XmlGap
  tables : List (XmlTable × XmlGap)
  close : XmlTag
  after : XmlGap
  isDatabase : strcasecmp el (str "database") = false

def XmlRowElement.pieces (r : XmlRowElement) : List XmlPiece :=
  match r.close with
  | none => [.empty r.tag.text r.el r.attrs]
  | some (inner, close) => [.start r.tag.text r.el r.attrs, .quiet inner, .stop close.text r.el]

/-- The rows of a table, each with the whitespace behind it. -/
def rowPieces (rows : List (XmlRowElement × XmlGap)) : List XmlPiece :=
  rows.flatMap fun x => x.1.pieces ++ [.gap x.2.text]

def XmlTable.pieces (t : XmlTable) : List XmlPiece :=
  .start t.tag.text t.el t.attrs :: .gap t.first.text :: (rowPieces t.rows ++
    [.stop t.close.text t.el])

def tablePieces (tables : List (XmlTable × XmlGap)) : List XmlPiece :=
  tables.flatMap fun x => x.1.pieces ++ [.gap x.2.text]

def XmlDoc.pieces (f : XmlDoc) : List XmlPiece :=
  .quiet f.prolog :: .start f.tag.text f.el f.attrs :: .gap f.first.text ::
    (tablePieces f.tables ++ [.stop f.close.text f.el, .gap f.after.text])

def XmlDoc.text (f : XmlDoc) : Bytes := xmlText f.pieces

/-- A file of the driver.  `XML_Parse` takes its length as an `int`. -/
structure XmlDataFile extends XmlDoc where
  short : toXmlDoc.text.length < 2147483648

/-- Every piece but the whitespace is what it is for the parser. -/
def XmlDoc.Read (reads : XmlPiece → Prop) (f : XmlDoc) : Prop :=
  ∀ x ∈ f.pieces, x.isGap = true ∨ reads x

instance (reads : XmlPiece → Prop) [DecidablePred reads] (f : XmlDoc) : Decidable (f.Read reads) :=
  inferInstanceAs (Decidable (∀ x ∈ f.pieces, x.isGap = true ∨ reads x))

/-- What is asked of expat: the elements with the positions of their tags, by what it reads in
each tag, and a column on the line of each. -/
def ExpatReports (reads : XmlPiece → Prop) (parse : Bytes → Option (List XmlEvent)) : Prop :=
  ∀ f : XmlDataFile, f.Read reads →
    ∃ column : ℕ → ℕ, (∀ p, column p ≤ p) ∧ parse f.text = some (xmlEvents column 0 f.pieces)

/-- The table that a request names. -/
def XmlTable.Named (t : XmlTable) (d : DbTable) : Prop := strcasecmp t.name d.name = false

instance (t : XmlTable) (d : DbTable) : Decidable (t.Named d) :=
  inferInstanceAs (Decidable (strcasecmp t.name d.name = false))

/-- The rows of the named tables. -/
def rowsOfTables (d : DbTable) (tables : List (XmlTable × XmlGap)) :
    List (XmlRowElement × XmlGap) :=
  tables.flatMap fun x => if x.1.Named d then x.1.rows else []

/-- The row matches the request. -/
def XmlRowElement.Matches [LongWidth] (m : XmlMachine) (d : DbTable) (r : XmlRowElement) : Prop :=
  xdbCompareRow m d r.attrs = some true

instance [LongWidth] (m : XmlMachine) (d : DbTable) (r : XmlRowElement) :
    Decidable (r.Matches m d) :=
  inferInstanceAs (Decidable (xdbCompareRow m d r.attrs = some true))

/-- The rows that match, of some rows. -/
def matching [LongWidth] (m : XmlMachine) (d : DbTable) (rows : List XmlRowElement) :
    List XmlRowElement :=
  rows.filter fun r => r.Matches m d

/-! ## The tags of a file -/

/-- The tags of some rows. -/
theorem mem_rowPieces_iff {rows : List (XmlRowElement × XmlGap)} {x : XmlPiece}
    (hx : x.isGap = false) : x ∈ rowPieces rows ↔ ∃ r ∈ rows.map Prod.fst, x ∈ r.pieces := by
  have hno : ∀ g : XmlGap, x ≠ .gap g.text := by
    rintro g rfl
    contradiction
  simp [rowPieces, hno]

theorem mem_tablePieces_iff {tables : List (XmlTable × XmlGap)} {x : XmlPiece}
    (hx : x.isGap = false) : x ∈ tablePieces tables ↔ ∃ y ∈ tables, x ∈ y.1.pieces := by
  have hno : ∀ g : XmlGap, x ≠ .gap g.text := by
    rintro g rfl
    contradiction
  simp [tablePieces, hno]

/-! ## Elements -/

/-- One name is not two. -/
theorem strcasecmp_of_same {a b c : Bytes} (h : strcasecmp a b = false)
    (hbc : strcasecmp b c = true) : strcasecmp a c = true := by
  simp only [strcasecmp, decide_eq_false_iff_not, not_not, decide_eq_true_eq] at h hbc ⊢
  rwa [h]

theorem XmlRowElement.not_table (r : XmlRowElement) : strcasecmp r.el (str "table") = true :=
  strcasecmp_of_same r.isRow (by decide)

theorem XmlRowElement.not_database (r : XmlRowElement) :
    strcasecmp r.el (str "database") = true := strcasecmp_of_same r.isRow (by decide)

section

variable {m : XmlMachine} {act : XmlAction} {marked : Bytes → Bool} {d : DbTable}
  {s : XmlDbState} {column : ℕ → ℕ} {p : ℕ}

/-! ### A row -/

/-- A row, where a table is skipped. -/
theorem run_row_skip [LongWidth] (r : XmlRowElement) (hskip : s.skipObj = true) :
    xmlHandleAll m act marked d (xmlEvents column p r.pieces) s = some s := by
  have hstart : ∀ index count col,
      xdbQueryStart m act marked d s r.el r.attrs index count col = some s := by
    intro index count col
    simp [xdbQueryStart, r.not_table, r.not_database, hskip]
  have hstop : ∀ index count, xdbQueryStop m act marked d s r.el index count = some s := by
    intro index count
    simp [xdbQueryStop, hskip]
  rw [XmlRowElement.pieces]
  split <;> simp [xmlEvents, XmlPiece.events, xmlHandleAll, xmlHandle, hstart, hstop]

/-- The start of a row, for a deletion. -/
theorem xdbQueryStart_deleteRow [LongWidth] (r : XmlRowElement) (hskip : s.skipObj = false)
    (index count col : ℕ) :
    xdbQueryStart m .deleteRow marked d s r.el r.attrs index count col =
      (xdbCompareRow m d r.attrs).map fun same =>
        if same then { s with streamStart := index, streamCount := count }
        else { s with streamStart := -1, streamCount := -1 } := by
  simp [xdbQueryStart, r.not_table, r.not_database, hskip, r.isRow]

/-- Its end. -/
theorem xdbQueryStop_deleteRow (r : XmlRowElement) (hskip : s.skipObj = false)
    (index count : ℕ) :
    xdbQueryStop m .deleteRow marked d s r.el index count =
      if s.streamStart = -1 ∧ s.streamCount = -1 then some s
      else deleteRow s ((index + count : ℤ) - s.streamStart) := by
  simp [xdbQueryStop, hskip, r.isRow]

/-- **A row in a deletion.** -/
theorem run_row_delete [LongWidth] (r : XmlRowElement) (hskip : s.skipObj = false) :
    xmlHandleAll m .deleteRow marked d (xmlEvents column p r.pieces) s =
      (xdbCompareRow m d r.attrs).bind fun same =>
        if same then
          deleteRow { s with streamStart := p, streamCount := r.tag.text.length }
            (xmlText r.pieces).length
        else some { s with streamStart := -1, streamCount := -1 } := by
  have hstart := fun index count col =>
    @xdbQueryStart_deleteRow m marked d s _ r hskip index count col
  have hmark := fun index count => @xdbQueryStop_deleteRow m marked d
    { s with streamStart := p, streamCount := r.tag.text.length } r hskip index count
  have hno := fun index count => @xdbQueryStop_deleteRow m marked d
    { s with streamStart := -1, streamCount := -1 } r hskip index count
  -- the end of the row is behind it, whether it has a tag of its own or not
  have hlen : ∀ n k l : ℕ, (p + n + k + l : ℤ) - p = n + (k + l) := by
    intro n k l
    omega
  rw [XmlRowElement.pieces]
  cases hclose : r.close with
  | none =>
    cases hsame : xdbCompareRow m d r.attrs with
    | none => simp [xmlEvents, XmlPiece.events, xmlHandleAll, xmlHandle, hstart, hsame]
    | some same =>
      cases same <;>
        simp [xmlEvents, XmlPiece.events, xmlHandleAll, xmlHandle, hstart, hsame, hmark, hno,
          XmlPiece.text]
  | some close =>
    obtain ⟨inner, close⟩ := close
    cases hsame : xdbCompareRow m d r.attrs with
    | none => simp [xmlEvents, XmlPiece.events, xmlHandleAll, xmlHandle, hstart, hsame]
    | some same =>
      cases same <;>
        simp [xmlEvents, XmlPiece.events, xmlHandleAll, xmlHandle, hstart, hsame, hmark, hno,
          XmlPiece.text, hlen]

/-- **A row in a selection.** -/
theorem run_row_select [LongWidth] (r : XmlRowElement) (hskip : s.skipObj = false) :
    xmlHandleAll m .selectRow marked d (xmlEvents column p r.pieces) s =
      (xdbCompareRow m d r.attrs).map fun same =>
        if same then { s with resMap := s.resMap ++ [r.attrs] } else s := by
  have hstart : ∀ index count col,
      xdbQueryStart m .selectRow marked d s r.el r.attrs index count col =
        (xdbCompareRow m d r.attrs).map fun same =>
          if same then { s with resMap := s.resMap ++ [r.attrs] } else s := by
    intro index count col
    simp [xdbQueryStart, r.not_table, r.not_database, hskip, r.isRow]
  have hstop : ∀ (t : XmlDbState) (index count : ℕ),
      xdbQueryStop m .selectRow marked d t r.el index count = some t := by
    intro t index count
    simp [xdbQueryStop, r.isRow]
  rw [XmlRowElement.pieces]
  cases hsame : xdbCompareRow m d r.attrs <;> split <;>
    simp [xmlEvents, XmlPiece.events, xmlHandleAll, xmlHandle, hstart, hsame, hstop]

/-! ### A table -/

/-- Attributes that are no names change nothing. -/
theorem tableAttrs_of_filter_eq_nil {attrs : XmlRow}
    (h : attrs.filter (fun a => !strcasecmp a.1 (str "name")) = []) (index count col : ℕ) :
    tableAttrs m act marked d index count col attrs s = some s := by
  induction attrs with
  | nil => rfl
  | cons a attrs ih =>
    rw [List.filter_eq_nil_iff, List.forall_mem_cons, ← List.filter_eq_nil_iff] at h
    have ha : strcasecmp a.1 (str "name") = true := by simpa using h.1
    rw [tableAttrs, if_pos ha, ih h.2]

/-- The attributes of a table that gets no row: the one name decides. -/
theorem tableAttrs_eq {attrs : XmlRow} {key name : Bytes}
    (hact : act = .insertRow → strcasecmp name d.name = true)
    (hname : attrs.filter (fun a => !strcasecmp a.1 (str "name")) = [(key, name)])
    (index count col : ℕ) :
    ∃ i n, tableAttrs m act marked d index count col attrs s =
      some { s with skipObj := strcasecmp name d.name, streamStart := i, streamCount := n } := by
  induction attrs with
  | nil => simp at hname
  | cons a attrs ih =>
    by_cases ha : strcasecmp a.1 (str "name") = true
    · rw [List.filter_cons_of_neg (by simp [ha])] at hname
      rw [tableAttrs, if_pos ha]
      exact ih hname
    · rw [List.filter_cons_of_pos (by simpa using ha), List.cons.injEq] at hname
      obtain ⟨rfl, hrest⟩ := hname
      rw [tableAttrs, if_neg ha]
      cases hd : strcasecmp name d.name with
      | true =>
        exact ⟨s.streamStart, s.streamCount, by
          rw [if_pos rfl, tableAttrs_of_filter_eq_nil hrest]⟩
      | false =>
        refine ⟨index, count, ?_⟩
        have hno : act ≠ .insertRow := by
          intro heq
          rw [hact heq] at hd
          contradiction
        rw [if_neg Bool.false_ne_true, if_neg hno, tableAttrs_of_filter_eq_nil hrest]

/-- A table, from the state behind its first tag. -/
theorem run_table_of_start [LongWidth] (t : XmlTable) {s₁ : XmlDbState}
    (hstart : tableAttrs m act marked d p t.tag.text.length (column p) t.attrs s = some s₁) :
    xmlHandleAll m act marked d (xmlEvents column p t.pieces) s =
      (xmlHandleAll m act marked d
        (xmlEvents column (p + t.tag.text.length + t.first.text.length) (rowPieces t.rows))
        s₁).map fun s => { s with skipObj := true } := by
  have hrow : strcasecmp t.el (str "row") = true := strcasecmp_of_same t.isTable (by decide)
  have hstop : ∀ (s : XmlDbState) (index count : ℕ),
      xdbQueryStop m act marked d s t.el index count = some { s with skipObj := true } := by
    intro s index count
    rw [xdbQueryStop]
    split
    · next hskip => rw [← hskip]
    · simp [hrow]
  have hquery : xdbQueryStart m act marked d s t.el t.attrs p t.tag.text.length (column p) =
      some s₁ := by
    simp only [xdbQueryStart, t.isTable, Bool.not_false, if_true, hstart]
  rw [XmlTable.pieces, xmlEvents, xmlEvents, xmlEvents_append, Option.map_eq_bind]
  simp only [XmlPiece.events, List.nil_append, List.singleton_append, xmlHandleAll, xmlHandle,
    hquery, Option.bind_some, xmlHandleAll_append, XmlPiece.text]
  congr 1
  funext s
  simp [xmlEvents, XmlPiece.events, xmlHandleAll, xmlHandle, hstop]

/-- **A table**: its rows, in a state that skips them where the table is not named. -/
theorem run_table [LongWidth] (t : XmlTable) (hact : act = .insertRow → ¬ t.Named d) :
    ∃ i n, xmlHandleAll m act marked d (xmlEvents column p t.pieces) s =
      (xmlHandleAll m act marked d
        (xmlEvents column (p + t.tag.text.length + t.first.text.length) (rowPieces t.rows))
        { s with skipObj := strcasecmp t.name d.name, streamStart := i, streamCount := n }).map
          fun s => { s with skipObj := true } := by
  have hskip : act = .insertRow → strcasecmp t.name d.name = true := fun heq => by
    simpa [XmlTable.Named] using hact heq
  obtain ⟨i, n, hattrs⟩ := @tableAttrs_eq m act marked d s _ _ _ hskip t.attrs_name p
    t.tag.text.length (column p)
  exact ⟨i, n, run_table_of_start t hattrs⟩

/-- The rows of a table that is skipped. -/
theorem run_rows_skip [LongWidth] (rows : List (XmlRowElement × XmlGap))
    (hskip : s.skipObj = true) :
    xmlHandleAll m act marked d (xmlEvents column p (rowPieces rows)) s = some s := by
  induction rows generalizing p with
  | nil => rfl
  | cons x rows ih =>
    rw [rowPieces, List.flatMap_cons, xmlEvents_append, xmlEvents_append, xmlHandleAll_append,
      xmlHandleAll_append, run_row_skip x.1 hskip, Option.bind_some]
    exact ih

theorem rowPieces_cons (r : XmlRowElement) (g : XmlGap) (rows : List (XmlRowElement × XmlGap)) :
    rowPieces ((r, g) :: rows) = r.pieces ++ (.gap g.text :: rowPieces rows) := by
  simp [rowPieces]

/-- The events of the first row and those of the others. -/
theorem run_rows_cons [LongWidth] (r : XmlRowElement) (g : XmlGap)
    (rows : List (XmlRowElement × XmlGap)) :
    xmlHandleAll m act marked d (xmlEvents column p (rowPieces ((r, g) :: rows))) s =
      (xmlHandleAll m act marked d (xmlEvents column p r.pieces) s).bind
        (xmlHandleAll m act marked d
          (xmlEvents column (p + (xmlText r.pieces).length + g.text.length) (rowPieces rows))) := by
  rw [rowPieces_cons, xmlEvents_append, xmlHandleAll_append, xmlEvents]
  rfl

/-- **The rows of a table in a selection.** -/
theorem run_rows_select [LongWidth] {rows : List (XmlRowElement × XmlGap)}
    (hskip : s.skipObj = false) (hall : ∀ x ∈ rows, (xdbCompareRow m d x.1.attrs).isSome = true) :
    xmlHandleAll m .selectRow marked d (xmlEvents column p (rowPieces rows)) s = some { s with
      resMap := s.resMap ++ (matching m d (rows.map Prod.fst)).map XmlRowElement.attrs } := by
  induction rows generalizing s p with
  | nil => simp [rowPieces, xmlEvents, xmlHandleAll, matching]
  | cons x rows ih =>
    obtain ⟨r, g⟩ := x
    obtain ⟨hsome, hrest⟩ := List.forall_mem_cons.mp hall
    obtain ⟨same, hsame⟩ := Option.isSome_iff_exists.mp hsome
    rw [run_rows_cons, run_row_select r hskip, hsame, Option.map_some, Option.bind_some]
    cases same with
    | false =>
      have hno : ¬ r.Matches m d := by simp [XmlRowElement.Matches, hsame]
      rw [if_neg Bool.false_ne_true, ih hskip hrest, List.map_cons, matching, matching,
        List.filter_cons_of_neg (by simpa using hno)]
    | true =>
      have hyes : r.Matches m d := hsame
      have hrun := @ih { s with resMap := s.resMap ++ [r.attrs] }
        (p + (xmlText r.pieces).length + g.text.length) hskip hrest
      rw [if_pos rfl, hrun, List.map_cons, matching, matching,
        List.filter_cons_of_pos (by simpa using hyes), List.map_cons, List.append_assoc]
      rfl

theorem tablePieces_cons (t : XmlTable) (g : XmlGap) (tables : List (XmlTable × XmlGap)) :
    tablePieces ((t, g) :: tables) = t.pieces ++ (.gap g.text :: tablePieces tables) := by
  simp [tablePieces]

/-- The events of the first table and those of the others. -/
theorem run_tables_cons [LongWidth] (t : XmlTable) (g : XmlGap)
    (tables : List (XmlTable × XmlGap)) :
    xmlHandleAll m act marked d (xmlEvents column p (tablePieces ((t, g) :: tables))) s =
      (xmlHandleAll m act marked d (xmlEvents column p t.pieces) s).bind
        (xmlHandleAll m act marked d
          (xmlEvents column (p + (xmlText t.pieces).length + g.text.length)
            (tablePieces tables))) := by
  rw [tablePieces_cons, xmlEvents_append, xmlHandleAll_append, xmlEvents]
  rfl

/-- Tables that are not named. -/
theorem run_tables_skip [LongWidth] {tables : List (XmlTable × XmlGap)}
    (hno : ∀ x ∈ tables, ¬ x.1.Named d) :
    ∃ s', xmlHandleAll m act marked d (xmlEvents column p (tablePieces tables)) s = some s' ∧
      s'.dbBuff = s.dbBuff ∧ s'.resMap = s.resMap := by
  induction tables generalizing s p with
  | nil => exact ⟨s, rfl, rfl, rfl⟩
  | cons x tables ih =>
    obtain ⟨t, g⟩ := x
    obtain ⟨ht, htables⟩ := List.forall_mem_cons.mp hno
    have hskip : strcasecmp t.name d.name = true := by simpa [XmlTable.Named] using ht
    obtain ⟨i, n, hrun⟩ := @run_table m act marked d s column p _ t fun _ => ht
    rw [run_rows_skip t.rows hskip, Option.map_some] at hrun
    obtain ⟨s', hrest, hbuff, hres⟩ := @ih
      { s with skipObj := true, streamStart := i, streamCount := n }
      (p + (xmlText t.pieces).length + g.text.length) htables
    exact ⟨s', by rw [run_tables_cons, hrun, Option.bind_some, hrest], hbuff, hres⟩

theorem tablePieces_append (tables tables' : List (XmlTable × XmlGap)) :
    tablePieces (tables ++ tables') = tablePieces tables ++ tablePieces tables' :=
  List.flatMap_append

/-- The tables in a selection. -/
theorem run_tables_select [LongWidth] {tables : List (XmlTable × XmlGap)}
    (hall : ∀ x ∈ rowsOfTables d tables, (xdbCompareRow m d x.1.attrs).isSome = true) :
    ∃ s', xmlHandleAll m .selectRow marked d (xmlEvents column p (tablePieces tables)) s = some s' ∧
      s'.resMap = s.resMap ++
        (matching m d ((rowsOfTables d tables).map Prod.fst)).map XmlRowElement.attrs := by
  induction tables generalizing s p with
  | nil => exact ⟨s, rfl, by simp [rowsOfTables, matching]⟩
  | cons x tables ih =>
    obtain ⟨t, g⟩ := x
    have hcons : rowsOfTables d ((t, g) :: tables) =
        (if t.Named d then t.rows else []) ++ rowsOfTables d tables := by
      rw [rowsOfTables, List.flatMap_cons]
      rfl
    rw [hcons, List.forall_mem_append] at hall
    obtain ⟨i, n, hrun⟩ := @run_table m .selectRow marked d s column p _ t nofun
    -- the rows of the first table, if it is named
    have hrows : ∃ s₁,
        xmlHandleAll m .selectRow marked d (xmlEvents column p t.pieces) s = some s₁ ∧
        s₁.resMap = s.resMap ++ (matching m d
          ((if t.Named d then t.rows else []).map Prod.fst)).map XmlRowElement.attrs := by
      rw [hrun]
      by_cases hnamed : t.Named d
      · rw [if_pos hnamed] at hall ⊢
        have hselect := @run_rows_select m marked d
          { s with skipObj := strcasecmp t.name d.name, streamStart := i, streamCount := n } column
          (p + t.tag.text.length + t.first.text.length) _ t.rows hnamed hall.1
        exact ⟨_, by rw [hselect, Option.map_some], rfl⟩
      · have hskip : strcasecmp t.name d.name = true := by simpa [XmlTable.Named] using hnamed
        refine ⟨_, by rw [run_rows_skip t.rows hskip, Option.map_some], ?_⟩
        simp [matching, hnamed]
    obtain ⟨s₁, hfirst, hres₁⟩ := hrows
    obtain ⟨s', hrest, hres⟩ := ih hall.2
    refine ⟨s', by rw [run_tables_cons, hfirst, Option.bind_some, hrest], ?_⟩
    rw [hres, hres₁, hcons, List.append_assoc]
    simp only [matching, List.map_append, List.filter_append]

/-! ### A file -/

/-- The text of a file around its tables. -/
theorem XmlDoc.text_eq (f : XmlDoc) :
    f.text = f.prolog ++ f.tag.text ++ f.first.text ++
      (xmlText (tablePieces f.tables) ++ (f.close.text ++ f.after.text)) := by
  simp [XmlDoc.text, XmlDoc.pieces, XmlPiece.text]

/-- **A file**: its tables. -/
theorem run_file [LongWidth] (f : XmlDoc) (hact : act ≠ .insertTable) :
    xmlHandleAll m act marked d (xmlEvents column 0 f.pieces) s =
      (xmlHandleAll m act marked d
        (xmlEvents column (f.prolog.length + f.tag.text.length + f.first.text.length)
          (tablePieces f.tables)) s).map fun s => { s with skipObj := true } := by
  have htable : strcasecmp f.el (str "table") = true :=
    strcasecmp_of_same f.isDatabase (by decide)
  have hrow : strcasecmp f.el (str "row") = true := strcasecmp_of_same f.isDatabase (by decide)
  have hstart : ∀ index count col,
      xdbQueryStart m act marked d s f.el f.attrs index count col = some s := by
    intro index count col
    simp [xdbQueryStart, htable, hrow, hact]
  have hstop : ∀ (s : XmlDbState) (index count : ℕ),
      xdbQueryStop m act marked d s f.el index count = some { s with skipObj := true } := by
    intro s index count
    rw [xdbQueryStop]
    split
    · next hskip => rw [← hskip]
    · simp [hrow]
  rw [XmlDoc.pieces, xmlEvents, xmlEvents, xmlEvents, xmlEvents_append, Option.map_eq_bind]
  simp only [XmlPiece.events, List.nil_append, List.singleton_append, xmlHandleAll, xmlHandle,
    hstart, Option.bind_some, xmlHandleAll_append, XmlPiece.text, Nat.zero_add]
  congr 1
  funext s
  simp [xmlEvents, XmlPiece.events, xmlHandleAll, xmlHandle, hstop]

/-- **A selection from a file** finds the rows of the named tables that match, in order. -/
theorem run_file_select [LongWidth] {f : XmlDoc} {parse : Bytes → Option (List XmlEvent)}
    (hparse : parse f.text = some (xmlEvents column 0 f.pieces))
    (hall : ∀ x ∈ rowsOfTables d f.tables, (xdbCompareRow m d x.1.attrs).isSome = true) :
    ∃ s, xmlAction m .selectRow marked d parse f.text = some s ∧
      s.resMap =
        (matching m d ((rowsOfTables d f.tables).map Prod.fst)).map XmlRowElement.attrs := by
  obtain ⟨s, hrun, hres⟩ := @run_tables_select m marked d ⟨f.text, [], false, 0, 0, 0⟩ column
    (f.prolog.length + f.tag.text.length + f.first.text.length) _ f.tables hall
  refine ⟨{ s with skipObj := true }, ?_, hres⟩
  rw [xmlAction, hparse, Option.bind_some, run_file f (by decide), hrun, Option.map_some]

end

/-! ## A parser for a few tags -/

/-- A machine of 32 bits. -/
def XmlMachine.sample : XmlMachine where
  sizeBits := 32
  sizeBits_ge := le_refl 32
  localtime _ := ⟨107, 0, 1, 0, 0, 0, 0⟩
  mktime _ := 0
  isdst := 0
  showFloat := id
  readFloat := id
  sameFloat valu x := valu == x

/-- The tags that the parser below knows. -/
def sampleTags : List XmlPiece :=
  [.start (str "<database v='1'>") (str "database") [(str "v", str "1")],
    .stop (str "</database>") (str "database"),
    .start (str "<table name='t'>") (str "table") [(str "name", str "t")],
    .stop (str "</table>") (str "table"),
    .empty (str "<row a='1'/>") (str "row") [(str "a", str "1")],
    .empty (str "<row a='2'/>") (str "row") [(str "a", str "2")],
    .empty (str "<row  a = '7'  b = 'x&amp;y' />") (str "row")
      [(str "a", str "7"), (str "b", str "x&y")],
    .empty (str "<row  a = '7'  u = '' />") (str "row") [(str "a", str "7"), (str "u", [])]]

/-- The events of a tag. -/
def sampleTagEvents (p : ℕ) (tag : Bytes) : List XmlEvent :=
  match sampleTags.find? fun x => decide (x.text = tag) with
  | some x => x.events (fun _ => 0) p
  | none => []

/-- A parser for a few tags: from `<` to `>`. -/
def sampleScan : ℕ → Option Bytes → Bytes → List XmlEvent
  | _, _, [] => []
  | p, none, c :: t => sampleScan (p + 1) (if c = 60 then some [60] else none) t
  | p, some tag, c :: t =>
    if c = 62 then sampleTagEvents (p - tag.length) (tag ++ [62]) ++ sampleScan (p + 1) none t
    else sampleScan (p + 1) (some (tag ++ [c])) t

theorem sampleScan_gap {g : Bytes} (hg : (60 : UInt8) ∉ g) (p : ℕ) (t : Bytes) :
    sampleScan p none (g ++ t) = sampleScan (p + g.length) none t := by
  induction g generalizing p with
  | nil => rfl
  | cons c g ih =>
    rw [List.mem_cons, not_or] at hg
    rw [List.cons_append, sampleScan, if_neg (Ne.symm hg.1), ih hg.2, List.length_cons,
      Nat.add_assoc, Nat.add_comm 1]

theorem sampleScan_inside {body : Bytes} (hbody : (62 : UInt8) ∉ body) (p : ℕ) (tag t : Bytes) :
    sampleScan p (some tag) (body ++ 62 :: t) =
      sampleTagEvents (p - tag.length) (tag ++ body ++ [62]) ++
        sampleScan (p + body.length + 1) none t := by
  induction body generalizing p tag with
  | nil => simp [sampleScan]
  | cons c body ih =>
    rw [List.mem_cons, not_or] at hbody
    rw [List.cons_append, sampleScan, if_neg (Ne.symm hbody.1), ih hbody.2, List.length_append,
      List.length_singleton, Nat.add_sub_add_right, List.length_cons]
    simp only [List.append_assoc, List.singleton_append, Nat.add_assoc, Nat.add_comm 1]

theorem sampleTags_spec : ∀ x ∈ sampleTags,
    x.text = 60 :: (x.text.tail.dropLast ++ [62]) ∧ (62 : UInt8) ∉ x.text.tail.dropLast ∧
      sampleTags.find? (fun y => decide (y.text = x.text)) = some x := by
  decide +kernel

theorem sampleScan_tag {x : XmlPiece} (hx : x ∈ sampleTags) (p : ℕ) (t : Bytes) :
    sampleScan p none (x.text ++ t) =
      x.events (fun _ => 0) p ++ sampleScan (p + x.text.length) none t := by
  obtain ⟨htext, hbody, hfind⟩ := sampleTags_spec x hx
  generalize x.text.tail.dropLast = body at htext hbody
  have hevents : sampleTagEvents p x.text = x.events (fun _ => 0) p := by
    rw [sampleTagEvents, hfind]
  have htag : [60] ++ body ++ [62] = x.text := by rw [htext]; rfl
  have hend : p + 1 + body.length + 1 = p + x.text.length := by
    rw [htext, List.length_cons, List.length_append, List.length_singleton]
    omega
  have hopen : sampleScan p none (x.text ++ t) =
      sampleScan (p + 1) (some [60]) (body ++ 62 :: t) := by
    rw [htext, List.cons_append, sampleScan, if_pos rfl, List.append_assoc, List.singleton_append]
  rw [hopen, sampleScan_inside hbody, htag, hend, List.length_singleton, Nat.add_sub_cancel,
    hevents]

theorem XmlRowElement.isGap_pieces {r : XmlRowElement} {x : XmlPiece} (hx : x ∈ r.pieces) :
    x.isGap = false := by
  rw [XmlRowElement.pieces] at hx
  cases hclose : r.close with
  | none =>
    rw [hclose, List.mem_singleton] at hx
    rw [hx]
    rfl
  | some close =>
    rw [hclose] at hx
    simp only [List.mem_cons, List.not_mem_nil, or_false] at hx
    rcases hx with rfl | rfl | rfl <;> rfl

/-- The whitespace of a file. -/
theorem gap_of_mem_pieces {f : XmlDoc} {x : XmlPiece} (hx : x ∈ f.pieces)
    (hgap : x.isGap = true) : ∃ g : XmlGap, x = .gap g.text := by
  have hrows : ∀ rows, x ∈ rowPieces rows → ∃ g : XmlGap, x = .gap g.text := by
    intro rows hmem
    obtain ⟨⟨r, g⟩, -, hmem⟩ := List.mem_flatMap.mp hmem
    rcases List.mem_append.mp hmem with hmem | hmem
    · rw [XmlRowElement.isGap_pieces hmem] at hgap
      contradiction
    · exact ⟨g, List.mem_singleton.mp hmem⟩
  have htable : ∀ t : XmlTable, x ∈ t.pieces → ∃ g : XmlGap, x = .gap g.text := by
    intro t hmem
    simp only [XmlTable.pieces, List.mem_cons, List.mem_append, List.not_mem_nil, or_false] at hmem
    rcases hmem with rfl | rfl | hmem | rfl
    · contradiction
    · exact ⟨t.first, rfl⟩
    · exact hrows _ hmem
    · contradiction
  simp only [XmlDoc.pieces, List.mem_cons, List.mem_append, List.not_mem_nil, or_false] at hx
  rcases hx with rfl | rfl | rfl | hx | rfl | rfl
  · contradiction
  · contradiction
  · exact ⟨f.first, rfl⟩
  · obtain ⟨⟨t, g⟩, -, hmem⟩ := List.mem_flatMap.mp hx
    rcases List.mem_append.mp hmem with hmem | hmem
    · exact htable t hmem
    · exact ⟨g, List.mem_singleton.mp hmem⟩
  · contradiction
  · exact ⟨f.after, rfl⟩

/-- What the parser knows. -/
def sampleReads (x : XmlPiece) : Prop := x ∈ sampleTags ∨ x = .quiet []

instance : DecidablePred sampleReads :=
  fun x => inferInstanceAs (Decidable (x ∈ sampleTags ∨ x = .quiet []))

theorem expatReports_sample :
    ExpatReports sampleReads fun b => some (sampleScan 0 none b) := by
  have hall : ∀ (ps : List XmlPiece) (p : ℕ),
      (∀ x ∈ ps, (∃ g : XmlGap, x = .gap g.text) ∨ sampleReads x) →
      sampleScan p none (xmlText ps) = xmlEvents (fun _ => 0) p ps := by
    intro ps
    induction ps with
    | nil => exact fun p _ => rfl
    | cons x ps ih =>
      intro p hps
      obtain ⟨hx, hrest⟩ := List.forall_mem_cons.mp hps
      rw [xmlText_cons, xmlEvents, ← ih _ hrest]
      rcases hx with ⟨g, rfl⟩ | hx | rfl
      · refine sampleScan_gap (fun hmem => ?_) p _
        have hspace := g.space 60 hmem
        revert hspace
        decide
      · exact sampleScan_tag hx p _
      · rfl
  intro f hread
  refine ⟨fun _ => 0, fun p => Nat.zero_le p, ?_⟩
  exact congrArg some
    (hall f.pieces 0 fun x hx => (hread x hx).imp_left (gap_of_mem_pieces hx))

/-- A row is no table. -/
theorem row_isRow : strcasecmp (str "row") (str "row") = false := by decide

/-- A row with one attribute. -/
def sampleRow (value : Bytes) (tag : XmlTag) : XmlRowElement where
  tag := tag
  el := str "row"
  attrs := [(str "a", value)]
  close := none
  isRow := row_isRow

/-- A table with two rows and some whitespace behind each. -/
def sampleTable (behind : XmlGap) : XmlTable where
  tag := ⟨str "<table name='t'>", by decide, by decide⟩
  el := str "table"
  attrs := [(str "name", str "t")]
  key := str "name"
  name := str "t"
  first := ⟨str "\n  ", by decide +kernel⟩
  rows :=
    [(sampleRow (str "1") ⟨str "<row a='1'/>", by decide, by decide⟩, behind),
      (sampleRow (str "2") ⟨str "<row a='2'/>", by decide, by decide⟩, behind)]
  close := ⟨str "</table>", by decide, by decide⟩
  isTable := by decide
  attrs_name := by decide

def newlineGap : XmlGap := ⟨[10], by decide +kernel⟩

/-- A file with the table. -/
def sampleDoc (behind : XmlGap) : XmlDoc where
  prolog := []
  tag := ⟨str "<database v='1'>", by decide, by decide⟩
  el := str "database"
  attrs := [(str "v", str "1")]
  first := ⟨[10], by decide +kernel⟩
  tables := [(sampleTable behind, ⟨[10], by decide +kernel⟩)]
  close := ⟨str "</database>", by decide, by decide⟩
  after := ⟨[10], by decide +kernel⟩
  isDatabase := by decide

/-- An `int` has room for the length of the file. -/
theorem sampleDoc_short : (sampleDoc newlineGap).text.length < 2147483648 := by decide +kernel

end Tacppd
