/-
# The xml-db driver

The driver keeps its data file in the string `dbBuff` and lets expat read it for every request.
The handlers of the elements compare the rows of the named table with the request, and change
`dbBuff` by the positions that expat reports.  Every change moves what is behind it, so that
the handlers count in `buffDeviation` by how much.

expat itself is a parameter.  An exception of a string function ends a request without a result.
-/
import Tacppd.Lib.CxxString
import Tacppd.Statements
import Tacppd.TacDb

namespace Tacppd

/-- `strcasecmp`, as a truth value: whether the texts differ. -/
def strcasecmp (a b : Bytes) : Bool := decide ((cstr a).map toLower ≠ (cstr b).map toLower)

/-! ## Dates -/

/-- `struct tm`. -/
structure Tm where
  year : ℤ
  mon : ℤ
  mday : ℤ
  hour : ℤ
  min : ℤ
  sec : ℤ
  isdst : ℤ
  deriving DecidableEq, Repr

/-- What the driver asks of the machine. -/
structure XmlMachine where
  /-- The bits of `size_t`; an `unsigned int` has 32. -/
  sizeBits : ℕ
  sizeBits_ge : 32 ≤ sizeBits
  localtime : ℤ → Tm
  mktime : Tm → ℤ
  /-- What `iso2time` finds in `tm_isdst`, which it does not set. -/
  isdst : ℤ
  /-- A `float`, by its text, as `<<` writes it. -/
  showFloat : Bytes → Bytes
  /-- The `float` of a text. -/
  readFloat : Bytes → Bytes
  /-- Whether the text is read as the `float`. -/
  sameFloat : Bytes → Bytes → Bool

/-- `%0nd`. -/
def padded (n : ℕ) (v : ℤ) : Bytes :=
  let digits := str (toString v.natAbs)
  let sign := if v < 0 then [45] else []
  sign ++ List.replicate (n - sign.length - digits.length) 48 ++ digits

section

variable (m : XmlMachine)

/-- `time2iso`, with `char str[64]`. -/
def XmlMachine.time2iso (t : ℤ) : Bytes :=
  let ttt := m.localtime t
  snprintf 63 (padded 4 (1900 + ttt.year) ++ str "-" ++ padded 2 (ttt.mon + 1) ++ str "-" ++
    padded 2 ttt.mday ++ str " " ++ padded 2 ttt.hour ++ str ":" ++ padded 2 ttt.min ++ str ":" ++
    padded 2 ttt.sec)

/-- The number at a place of a text. -/
def numberAt [LongWidth] (iso : Bytes) (i n : ℕ) : ℤ := atoi (cstr ((iso.drop i).take n))

/-- `iso2time`. -/
def XmlMachine.iso2time [LongWidth] (iso : Bytes) : ℤ :=
  m.mktime ⟨numberAt iso 0 4 - 1900, numberAt iso 5 2 - 1, numberAt iso 8 2, numberAt iso 11 2,
    numberAt iso 14 2, numberAt iso 17 2, m.isdst⟩

end

/-! ## Escaping -/

/-- How a loop ends, if it does. -/
inductive LoopEnd
  | done (str : Bytes)
  | threw
  | running
  deriving DecidableEq, Repr

/-- `find(c, pos)`, a `size_t`. -/
def XmlMachine.find (m : XmlMachine) (str : Bytes) (c : UInt8) (pos : ℕ) : ℕ :=
  match (str.drop pos).idxOf? c with
  | none => 2 ^ m.sizeBits - 1
  | some i => pos + i

/-- A loop of `convert2WF`.  The position is put into an `unsigned int` before it is compared with
`npos`.  Only the first loop goes on behind the byte that it has replaced. -/
def XmlMachine.escapeLoop (m : XmlMachine) (c : UInt8) (entity : Bytes) (goesOn : Bool) :
    ℕ → ℕ → Bytes → LoopEnd
  | 0, _, _ => .running
  | rounds + 1, pos, str =>
    let pos : ℕ := m.find str c (if goesOn then pos else 0) % 2 ^ 32
    if pos = 2 ^ m.sizeBits - 1 then .done str
    else
      match CxxString.replace str pos 1 entity with
      | none => .threw
      | some str => m.escapeLoop c entity goesOn rounds ((pos + 1) % 2 ^ 32) str

/-- The loops of `convert2WF`, in their order. -/
def escapes : List (UInt8 × Bytes × Bool) :=
  [(38, str "&amp;", true), (62, str "&gt;", false), (60, str "&lt;", false),
    (39, str "&apos;", false), (34, str "&quot;", false)]

/-- One loop after the other. -/
def XmlMachine.escapeAll (m : XmlMachine) (rounds : ℕ) :
    List (UInt8 × Bytes × Bool) → Bytes → LoopEnd
  | [], str => .done str
  | (c, entity, goesOn) :: l, str =>
    match m.escapeLoop c entity goesOn rounds 0 str with
    | .done str => m.escapeAll rounds l str
    | other => other

/-- `convert2WF`, with as many rounds for each loop as the text has bytes and one more. -/
def XmlMachine.convert2WF (m : XmlMachine) (str : Bytes) : Option Bytes :=
  match m.escapeAll (str.length + 1) escapes str with
  | .done str => some str
  | _ => none

/-! ## Rows -/

/-- The attributes of an element. -/
abbrev XmlRow := List (Bytes × Bytes)

/-- `get(n, char *v)` with `char v[300]`: a string that fills the buffer has no end in it. -/
def stringType (s : Bytes) : Option Bytes :=
  if (cstr s).length < 300 then some (cstr s) else none

inductive XmlAction
  | selectRow
  | insertRow
  | updateRow
  | deleteRow
  | insertTable
  deriving DecidableEq, Repr

section

variable (m : XmlMachine)

/-- The value of a field in `makeRow`, which has no case for an address. -/
def DbValue.xmlText : DbValue → Option Bytes
  | bool b => some (if b then str "true" else str "false")
  | int n => some (signedText n)
  | float x => some (m.showFloat x)
  | string s => (stringType s).bind m.convert2WF
  | date t => some (m.time2iso t)
  | ip _ => some []

/-- `makeRow`.  An update takes the fields that it does not set from the row as it is. -/
def makeRow (act : XmlAction) (marked : Bytes → Bool) (d : DbTable) (resMap : List XmlRow)
    (delim : ℕ) : Option Bytes :=
  let delim := if act = .insertRow then delim + 3 else delim
  (d.fields.mapM fun f =>
    (if act = .updateRow ∧ marked f.name = false then
      m.convert2WF (((resMap.headD []).lookup f.name).getD [])
    else f.value.xmlText m).map fun v => str " " ++ f.name ++ str " = '" ++ v ++ str "' ").map
    fun fields => List.replicate delim 32 ++ str "<row " ++ fields.flatten ++ str "/>"

/-- An attribute against a value of the request. -/
def DbValue.xmlSame [LongWidth] (valu : Bytes) : DbValue → Option Bool
  | bool b => some (strcasecmp valu (str "true") != b)
  | int n => some (atoi valu == toInt n)
  | float x => some (m.sameFloat valu x)
  | string s => (stringType s).map fun s => !strcasecmp valu s
  | date t => some (!strcasecmp valu (m.time2iso t))
  | ip _ => some true

/-- The loop over the attributes, for one field of the request. -/
def compareAttrs [LongWidth] (f : DbField) : XmlRow → Option Bool
  | [] => some true
  | attr :: attrs =>
    if strcasecmp attr.1 f.name then compareAttrs f attrs
    else (f.value.xmlSame m attr.2).bind fun same =>
      if same then compareAttrs f attrs else some false

/-- The loop over the fields. -/
def compareFields [LongWidth] (attrs : XmlRow) : List DbField → Option Bool
  | [] => some true
  | f :: fields =>
    if f.request then
      (compareAttrs m f attrs).bind fun same =>
        if same then compareFields attrs fields else some false
    else compareFields attrs fields

/-- `xdb_compareRow`. -/
def xdbCompareRow [LongWidth] (d : DbTable) (attrs : XmlRow) : Option Bool :=
  compareFields m attrs d.fields

end

/-! ## The handlers -/

/-- What expat reports: an element with its attributes, or its end, with the position and the
number of the bytes of its tag. -/
inductive XmlEvent
  | start (el : Bytes) (attrs : XmlRow) (index count column : ℕ)
  | stop (el : Bytes) (index count : ℕ)
  deriving DecidableEq, Repr

/-- What the handlers change. -/
structure XmlDbState where
  dbBuff : Bytes
  resMap : List XmlRow
  skipObj : Bool
  streamStart : ℤ
  streamCount : ℤ
  buffDeviation : ℤ
  deriving DecidableEq, Repr

/-- The string that INSERT_TABLE inserts. -/
def tableText (name : Bytes) (depth : ℕ) : Bytes :=
  let dbstr := List.replicate (depth + 3) 32
  str "\n" ++ dbstr ++ str " <TABLE name='" ++ name ++ str "'>               \n" ++ dbstr ++
    str " </TABLE>"

section

variable (m : XmlMachine) (act : XmlAction) (marked : Bytes → Bool) (d : DbTable)

/-- The attributes of a table: each `name` decides anew. -/
def tableAttrs (index count column : ℕ) : XmlRow → XmlDbState → Option XmlDbState
  | [], s => some s
  | attr :: attrs, s =>
    if strcasecmp attr.1 (str "name") then tableAttrs index count column attrs s
    else if strcasecmp attr.2 d.name then
      tableAttrs index count column attrs { s with skipObj := true }
    else
      let s := { s with skipObj := false, streamStart := index, streamCount := count }
      if act = .insertRow then
        (makeRow m act marked d s.resMap column).bind fun row =>
          (CxxString.replace s.dbBuff (s.streamStart + s.streamCount) 0 (str "\n" ++ row)).bind
            fun buff => tableAttrs index count column attrs
              { s with dbBuff := buff, skipObj := true }
      else tableAttrs index count column attrs s

/-- `xdb_queryStart`. -/
def xdbQueryStart [LongWidth] (s : XmlDbState) (el : Bytes) (attrs : XmlRow)
    (index count column : ℕ) : Option XmlDbState :=
  if !strcasecmp el (str "table") then tableAttrs m act marked d index count column attrs s
  else if !strcasecmp el (str "database") && decide (act = .insertTable) then
    (CxxString.replace s.dbBuff (index + count : ℤ) 0 (tableText d.name column)).map fun buff =>
      { s with dbBuff := buff, skipObj := true, streamStart := index, streamCount := count }
  else if s.skipObj then some s
  else if !strcasecmp el (str "row") then
    match act with
    | .selectRow =>
      (xdbCompareRow m d attrs).map fun same =>
        if same then { s with resMap := s.resMap ++ [attrs] } else s
    | .updateRow =>
      (xdbCompareRow m d attrs).map fun same =>
        if same then
          { s with resMap := s.resMap ++ [attrs], streamStart := index, streamCount := count }
        else { s with streamStart := -1, streamCount := -1 }
    | .deleteRow =>
      (xdbCompareRow m d attrs).map fun same =>
        if same then { s with streamStart := index, streamCount := count }
        else { s with streamStart := -1, streamCount := -1 }
    | _ => some s
  else some s

/-- `" \t"`. -/
def isBlank (c : UInt8) : Bool := c == 32 || c == 9

/-- `" \t\n"`. -/
def isGap (c : UInt8) : Bool := isBlank c || c == 10

/-- The row is erased, and then what is around it. -/
def deleteRow (s : XmlDbState) (len : ℤ) : Option XmlDbState :=
  let dotS := s.streamStart - s.buffDeviation
  (CxxString.replace s.dbBuff dotS len []).bind fun buff =>
    let dotE := CxxString.toInt (CxxString.findFirstNotOf isBlank buff dotS.toNat)
    let dotS := CxxString.toInt (CxxString.findLastNotOf isGap buff dotS.toNat) + 1
    (CxxString.replace buff dotS (dotE - dotS) []).map fun buff =>
      { s with dbBuff := buff, buffDeviation := s.buffDeviation + len + (dotE - dotS) }

/-- The row is replaced by the row of the update. -/
def replaceRow (s : XmlDbState) (len : ℤ) : Option XmlDbState :=
  (makeRow m act marked d s.resMap 0).bind fun tmprow =>
    (CxxString.replace s.dbBuff (s.streamStart - s.buffDeviation) len tmprow).map fun buff =>
      { s with
        dbBuff := buff, buffDeviation := s.buffDeviation + (len - tmprow.length), resMap := [] }

/-- `xdb_queryStop`. -/
def xdbQueryStop (s : XmlDbState) (el : Bytes) (index count : ℕ) : Option XmlDbState :=
  if s.skipObj then some s
  else if !strcasecmp el (str "row") then
    let len := (index + count : ℤ) - s.streamStart
    match act with
    | .deleteRow =>
      if s.streamStart = -1 ∧ s.streamCount = -1 then some s else deleteRow s len
    | .updateRow =>
      if s.streamStart = -1 ∧ s.streamCount = -1 then some s
      else replaceRow m act marked d s len
    | _ => some s
  else some { s with skipObj := true }

/-- The handler of an event. -/
def xmlHandle [LongWidth] (s : XmlDbState) : XmlEvent → Option XmlDbState
  | .start el attrs index count column => xdbQueryStart m act marked d s el attrs index count column
  | .stop el index count => xdbQueryStop m act marked d s el index count

/-- The handlers of all events. -/
def xmlHandleAll [LongWidth] : List XmlEvent → XmlDbState → Option XmlDbState
  | [], s => some s
  | e :: es, s => (xmlHandle m act marked d s e).bind (xmlHandleAll es)

/-- `xmlAction`, with expat as a function from the text to its events.  A text that expat does not
take ends the program. -/
def xmlAction [LongWidth] (parse : Bytes → Option (List XmlEvent)) (dbBuff : Bytes) :
    Option XmlDbState :=
  (parse dbBuff).bind fun events =>
    xmlHandleAll m act marked d events
      { dbBuff, resMap := [], skipObj := false, streamStart := 0, streamCount := 0,
        buffDeviation := 0 }

theorem xmlHandleAll_append [LongWidth] (es fs : List XmlEvent) (s : XmlDbState) :
    xmlHandleAll m act marked d (es ++ fs) s =
      (xmlHandleAll m act marked d es s).bind (xmlHandleAll m act marked d fs) := by
  induction es generalizing s with
  | nil => rfl
  | cons e es ih =>
    rw [List.cons_append, xmlHandleAll, xmlHandleAll, Option.bind_assoc]
    congr 1
    funext t
    exact ih t

end

/-! ## Reading a row -/

/-- What `db_get` makes of a text, for a field of the type; it has no case for an address. -/
def DbValue.xmlRead [LongWidth] (m : XmlMachine) (valu : Bytes) : DbValue → DbValue
  | bool _ => bool (valu.head? == some 116)
  | int _ => int (atoi valu % 18446744073709551616).toNat
  | float _ => float (m.readFloat valu)
  | string _ => string valu
  | date _ => date (m.iso2time valu)
  | ip v => ip v

/-- `db_get`: the fields that are not asked for. -/
def xdbGet [LongWidth] (m : XmlMachine) (resMap : List XmlRow) (row : ℕ) (d : DbTable) :
    Option DbTable :=
  (resMap[row]?).map fun attrs =>
    { d with fields := d.fields.map fun f =>
        if f.request then f
        else { f with value := f.value.xmlRead m ((attrs.lookup f.name).getD []) } }

end Tacppd
