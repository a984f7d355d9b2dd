/-
# A row through the xml-db driver

`db_add` writes a row into the file, `db_query` finds it and `db_get` reads its fields.  The
writer and the reader have a case for each type but for the addresses: an address is written as
nothing and not read at all.  A number goes through an `int`, and a date through the fields of a
`struct tm`.

The loops of `convert2WF` keep a position in an `unsigned int` and compare it with `npos`, which
has the bits of a `size_t`: they end only where both have 32 bits.

`xmlRoundTrip_iff` says when a row comes back.
-/
import Tacppd.XmlFile

namespace Tacppd

/-! ## What is asked of a row -/

/-- A byte in the text of an attribute. -/
def xmlByte (c : UInt8) : Bytes :=
  if c = 38 then str "&amp;"
  else if c = 62 then str "&gt;"
  else if c = 60 then str "&lt;"
  else if c = 39 then str "&apos;"
  else if c = 34 then str "&quot;"
  else [c]

section

variable (m : XmlMachine)

/-- **The loops of `convert2WF` end** for every string that the machine can hold escaped. -/
def EscapesEnd : Prop :=
  ∀ s : Bytes, (s.flatMap xmlByte).length < 2 ^ m.sizeBits - 1 →
    ∃ rounds out, m.escapeAll rounds escapes s = .done out

/-- The text of a value as expat gives it back. -/
def DbValue.xmlValue : DbValue → Bytes
  | bool b => if b then str "true" else str "false"
  | int n => signedText n
  | float x => m.showFloat x
  | string s => s
  | date t => m.time2iso t
  | ip _ => []

/-- The text of a value as it is written. -/
def DbValue.xmlWritten : DbValue → Bytes
  | string s => s.flatMap xmlByte
  | v => v.xmlValue m

/-- The tag of a row. -/
def xmlRowTag (d : DbTable) : Bytes :=
  str "<row " ++
    (d.fields.map fun f =>
      str " " ++ f.name ++ str " = '" ++ f.value.xmlWritten m ++ str "' ").flatten ++
    str "/>"

/-- Its attributes. -/
def xmlRowAttrs (d : DbTable) : XmlRow := d.fields.map fun f => (f.name, f.value.xmlValue m)

/-- The values of a row that is added are there after it has been selected and read. -/
def XmlRowBack [LongWidth] (marked : Bytes → Bool) (parse : Bytes → Option (List XmlEvent))
    (d : DbTable) (f : XmlDoc) : Prop :=
  ∃ s s' d', xmlAction m .insertRow marked d parse f.text = some s ∧
    xmlAction m .selectRow marked d.clear parse s.dbBuff = some s' ∧
    xdbGet m s'.resMap 0 d.clear = some d' ∧
    d'.fields.map DbField.value = d.fields.map DbField.value

/-- The value is the same after it has been written and read.  An integer has to be the value
of an `int` as an `unsigned long`. -/
def DbValue.XmlKept [LongWidth] : DbValue → Prop
  | bool _ => True
  | int n => n < 2147483648 ∨ 18446744071562067968 ≤ n ∧ n < 18446744073709551616
  | float x => m.readFloat (m.showFloat x) = x
  | string _ => True
  | date t => m.iso2time (m.time2iso t) = t
  | ip v => v = unknownIp

instance [LongWidth] : (v : DbValue) → Decidable (v.XmlKept m)
  | .bool _ => inferInstanceAs (Decidable True)
  | .int n => inferInstanceAs (Decidable (n < 2147483648 ∨
      18446744071562067968 ≤ n ∧ n < 18446744073709551616))
  | .float x => inferInstanceAs (Decidable (m.readFloat (m.showFloat x) = x))
  | .string _ => inferInstanceAs (Decidable True)
  | .date t => inferInstanceAs (Decidable (m.iso2time (m.time2iso t) = t))
  | .ip v => inferInstanceAs (Decidable (v = unknownIp))

end

/-! ## Escaping -/

section

variable {m : XmlMachine} {c : UInt8} {entity s : Bytes}

/-- One byte, in the loop for one of them. -/
def escapeByte (c : UInt8) (entity : Bytes) (x : UInt8) : Bytes := if x = c then entity else [x]

theorem flatMap_escapeByte_of_not_mem (h : c ∉ s) : s.flatMap (escapeByte c entity) = s := by
  induction s with
  | nil => rfl
  | cons x s ih =>
    rw [List.mem_cons, not_or] at h
    rw [List.flatMap_cons, escapeByte, if_neg (Ne.symm h.1), ih h.2, List.singleton_append]

/-- A text is not shorter if no byte vanishes. -/
theorem length_le_flatMap {e : UInt8 → Bytes} (he : ∀ x, e x ≠ []) (s : Bytes) :
    s.length ≤ (s.flatMap e).length := by
  induction s with
  | nil => simp
  | cons x s ih =>
    have hx := List.length_pos_iff.mpr (he x)
    rw [List.flatMap_cons, List.length_cons, List.length_append]
    omega

/-- Nothing is left to be found. -/
theorem XmlMachine.find_of_not_mem (hc : c ∉ s) (done : Bytes) :
    m.find (done ++ s) c done.length = 2 ^ m.sizeBits - 1 := by
  rw [find, List.drop_left, List.idxOf?_eq_none_iff.mpr hc]

/-- The first one is found. -/
theorem XmlMachine.find_append {a : Bytes} (ha : c ∉ a) (done b : Bytes) :
    m.find (done ++ (a ++ c :: b)) c done.length = done.length + a.length := by
  have hidx : (a ++ c :: b).idxOf? c = some a.length := by
    induction a with
    | nil => simp [List.idxOf?_cons]
    | cons x a ih =>
      rw [List.mem_cons, not_or] at ha
      simp [List.idxOf?_cons, Ne.symm ha.1, ih ha.2]
  rw [find, List.drop_left, hidx]

/-! ### One loop -/

variable {goesOn : Bool} {rounds pos : ℕ} {done a b : Bytes}

/-- **The loop ends** where nothing is found, if both have 32 bits. -/
theorem escapeLoop_end (hbits : m.sizeBits = 32) (hs : c ∉ s)
    (hpos : (if goesOn then pos else 0) = done.length) :
    m.escapeLoop c entity goesOn (rounds + 1) pos (done ++ s) = .done (done ++ s) := by
  rw [XmlMachine.escapeLoop]
  simp only [hpos, XmlMachine.find_of_not_mem hs, hbits]
  rfl

/-- One byte is replaced. -/
theorem escapeLoop_step (hbits : m.sizeBits = 32) (ha : c ∉ a)
    (hpos : (if goesOn then pos else 0) = done.length)
    (hlen : done.length + a.length < 2 ^ 32 - 1) :
    m.escapeLoop c entity goesOn (rounds + 1) pos (done ++ (a ++ c :: b)) =
      m.escapeLoop c entity goesOn rounds (done.length + a.length + 1)
        (done ++ a ++ entity ++ b) := by
  have hreplace : CxxString.replace (done ++ (a ++ c :: b)) (done.length + a.length : ℕ) 1 entity =
      some (done ++ a ++ entity ++ b) := by
    have h := CxxString.replace_append (done ++ a) [c] b entity
    rw [List.length_append] at h
    simpa only [List.append_assoc, List.singleton_append, List.length_singleton,
      Nat.cast_one] using h
  have hfound : (done.length + a.length) % 2 ^ 32 = done.length + a.length :=
    Nat.mod_eq_of_lt (by omega)
  have hnext : (done.length + a.length + 1) % 2 ^ 32 = done.length + a.length + 1 :=
    Nat.mod_eq_of_lt (by omega)
  have hno : ¬ done.length + a.length = 2 ^ 32 - 1 := by omega
  rw [XmlMachine.escapeLoop]
  simp only [hpos, XmlMachine.find_append ha, hfound, hbits, if_neg hno, hreplace, hnext]

theorem flatMap_append_cons (ha : c ∉ a) (b : Bytes) :
    (a ++ c :: b).flatMap (escapeByte c entity) =
      a ++ entity ++ b.flatMap (escapeByte c entity) := by
  rw [List.flatMap_append, flatMap_escapeByte_of_not_mem ha, List.flatMap_cons, escapeByte,
    if_pos rfl, List.append_assoc]

theorem escapeByte_ne_nil (h : entity ≠ []) (x : UInt8) : escapeByte c entity x ≠ [] := by
  rw [escapeByte]
  split
  · exact h
  · exact List.cons_ne_nil _ _

/-- **A loop that starts again** after each byte escapes all of them. -/
theorem escapeLoop_restarts (hbits : m.sizeBits = 32) (hentity : c ∉ entity) (hne : entity ≠ [])
    (hrounds : s.count c < rounds) (hlen : (s.flatMap (escapeByte c entity)).length < 2 ^ 32 - 1) :
    m.escapeLoop c entity false rounds pos s = .done (s.flatMap (escapeByte c entity)) := by
  induction rounds generalizing s pos with
  | zero => omega
  | succ rounds ih =>
    by_cases hmem : c ∈ s
    · obtain ⟨a, b, rfl, ha⟩ := List.eq_append_cons_of_mem hmem
      have hsame : (a ++ entity ++ b).flatMap (escapeByte c entity) =
          (a ++ c :: b).flatMap (escapeByte c entity) := by
        rw [flatMap_append_cons ha, List.flatMap_append, List.flatMap_append,
          flatMap_escapeByte_of_not_mem ha, flatMap_escapeByte_of_not_mem hentity]
      have hle := @length_le_flatMap (escapeByte c entity) (escapeByte_ne_nil hne) (a ++ c :: b)
      rw [List.length_append] at hle
      have hcount : (a ++ entity ++ b).count c < rounds := by
        rw [List.count_append, List.count_append, List.count_eq_zero.mpr ha,
          List.count_eq_zero.mpr hentity]
        rw [List.count_append, List.count_eq_zero.mpr ha, List.count_cons_self] at hrounds
        omega
      have hstep := @escapeLoop_step m c entity false rounds pos [] a b hbits ha rfl
        (by simp only [List.length_nil]; omega)
      rw [List.nil_append, List.nil_append] at hstep
      rw [hstep, ih hcount (by rwa [hsame]), hsame]
    · have hend := @escapeLoop_end m c entity s false rounds pos [] hbits hmem rfl
      rw [List.nil_append] at hend
      rw [hend, flatMap_escapeByte_of_not_mem hmem]

/-- **A loop that goes on** behind each byte escapes all of them, too. -/
theorem escapeLoop_goesOn {tail : Bytes} (hbits : m.sizeBits = 32) (htail : c ∉ tail)
    (hrounds : s.count c < rounds)
    (hlen : done.length + (s.flatMap (escapeByte c (c :: tail))).length < 2 ^ 32 - 1) :
    m.escapeLoop c (c :: tail) true rounds done.length (done ++ s) =
      .done (done ++ s.flatMap (escapeByte c (c :: tail))) := by
  induction rounds generalizing s done with
  | zero => omega
  | succ rounds ih =>
    by_cases hmem : c ∈ s
    · obtain ⟨a, b, rfl, ha⟩ := List.eq_append_cons_of_mem hmem
      have hrest : (tail ++ b).flatMap (escapeByte c (c :: tail)) =
          tail ++ b.flatMap (escapeByte c (c :: tail)) := by
        rw [List.flatMap_append, flatMap_escapeByte_of_not_mem htail]
      rw [flatMap_append_cons ha] at hlen ⊢
      have hcount : (tail ++ b).count c < rounds := by
        rw [List.count_append, List.count_eq_zero.mpr htail]
        rw [List.count_append, List.count_eq_zero.mpr ha, List.count_cons_self] at hrounds
        omega
      simp only [List.length_append, List.length_cons] at hlen
      have hnext := @ih (tail ++ b) (done ++ a ++ [c]) hcount (by
        rw [hrest]
        simp only [List.length_append, List.length_singleton]
        omega)
      rw [escapeLoop_step hbits ha rfl (by omega)]
      rw [hrest] at hnext
      simpa only [List.length_append, List.length_singleton, List.append_assoc,
        List.cons_append, List.nil_append, Nat.add_assoc] using hnext
    · rw [escapeLoop_end hbits hmem rfl, flatMap_escapeByte_of_not_mem hmem]

/-! ### All loops -/

/-- The five loops together, on one byte. -/
theorem xmlByte_eq (c : UInt8) :
    ((((escapeByte 38 (str "&amp;") c).flatMap (escapeByte 62 (str "&gt;"))).flatMap
      (escapeByte 60 (str "&lt;"))).flatMap (escapeByte 39 (str "&apos;"))).flatMap
        (escapeByte 34 (str "&quot;")) = xmlByte c := by
  rw [escapeByte, xmlByte]
  split
  · decide
  · rw [List.flatMap_singleton, escapeByte]
    split
    · decide
    · rw [List.flatMap_singleton, escapeByte]
      split
      · decide
      · rw [List.flatMap_singleton, escapeByte]
        split
        · decide
        · rw [List.flatMap_singleton, escapeByte]

/-- The rounds of a loop are bounded by the bytes of the text that are not of an entity. -/
theorem count_flatMap_le {x : UInt8} (hx : x ∉ entity) (s : Bytes) :
    (s.flatMap (escapeByte c entity)).count x ≤ s.count x := by
  induction s with
  | nil => simp
  | cons y s ih =>
    rw [List.flatMap_cons, List.count_append, List.count_cons, escapeByte]
    split
    · rw [List.count_eq_zero.mpr hx]
      omega
    · rw [List.count_singleton]
      simp only [beq_iff_eq]
      omega

/-- **`convert2WF` escapes every byte**, on a machine of 32 bits. -/
theorem escapeAll_eq (hbits : m.sizeBits = 32) (hlen : (s.flatMap xmlByte).length < 2 ^ 32 - 1) :
    m.escapeAll (s.length + 1) escapes s = .done (s.flatMap xmlByte) := by
  obtain ⟨s₁, h₁⟩ : ∃ t, t = s.flatMap (escapeByte 38 (str "&amp;")) := ⟨_, rfl⟩
  obtain ⟨s₂, h₂⟩ : ∃ t, t = s₁.flatMap (escapeByte 62 (str "&gt;")) := ⟨_, rfl⟩
  obtain ⟨s₃, h₃⟩ : ∃ t, t = s₂.flatMap (escapeByte 60 (str "&lt;")) := ⟨_, rfl⟩
  obtain ⟨s₄, h₄⟩ : ∃ t, t = s₃.flatMap (escapeByte 39 (str "&apos;")) := ⟨_, rfl⟩
  have h₅ : s.flatMap xmlByte = s₄.flatMap (escapeByte 34 (str "&quot;")) := by
    rw [h₄, h₃, h₂, h₁, List.flatMap_assoc, List.flatMap_assoc, List.flatMap_assoc,
      List.flatMap_assoc]
    congr 1
    funext c
    rw [← xmlByte_eq, List.flatMap_assoc, List.flatMap_assoc, List.flatMap_assoc]
  -- every text is as short as the last one
  have hle₅ : s₄.length ≤ (s.flatMap xmlByte).length := by
    rw [h₅]
    exact length_le_flatMap (escapeByte_ne_nil (by decide)) s₄
  have hle₄ : s₃.length ≤ s₄.length := by
    rw [h₄]
    exact length_le_flatMap (escapeByte_ne_nil (by decide)) s₃
  have hle₃ : s₂.length ≤ s₃.length := by
    rw [h₃]
    exact length_le_flatMap (escapeByte_ne_nil (by decide)) s₂
  have hle₂ : s₁.length ≤ s₂.length := by
    rw [h₂]
    exact length_le_flatMap (escapeByte_ne_nil (by decide)) s₁
  -- no entity has a byte that is escaped later
  have hcount : ∀ x, x ∉ str "&amp;" → s₁.count x ≤ s.length := fun x hx => by
    rw [h₁]
    exact (count_flatMap_le hx s).trans List.count_le_length
  have hcount₂ : ∀ x, x ∉ str "&amp;" → x ∉ str "&gt;" → s₂.count x ≤ s.length := fun x hx hx' => by
    rw [h₂]
    exact (count_flatMap_le hx' s₁).trans (hcount x hx)
  have hcount₃ : s₃.count 39 ≤ s.length := by
    rw [h₃]
    exact (count_flatMap_le (by decide) s₂).trans (hcount₂ 39 (by decide) (by decide))
  have hcount₄ : s₄.count 34 ≤ s.length := by
    rw [h₄, h₃]
    exact (count_flatMap_le (by decide) _).trans
      ((count_flatMap_le (by decide) s₂).trans (hcount₂ 34 (by decide) (by decide)))
  have hfirst := @escapeLoop_goesOn m 38 s (s.length + 1) [] (str "amp;") hbits (by decide)
    (Nat.lt_succ_of_le List.count_le_length) (by
      rw [show (38 : UInt8) :: str "amp;" = str "&amp;" by decide, ← h₁, List.length_nil]
      omega)
  rw [show (38 : UInt8) :: str "amp;" = str "&amp;" by decide, ← h₁] at hfirst
  simp only [List.nil_append, List.length_nil] at hfirst
  have hsecond := @escapeLoop_restarts m 62 (str "&gt;") s₁ (s.length + 1) 0 hbits (by decide)
    (by decide) (Nat.lt_succ_of_le (hcount 62 (by decide))) (by rw [← h₂]; omega)
  have hthird := @escapeLoop_restarts m 60 (str "&lt;") s₂ (s.length + 1) 0 hbits (by decide)
    (by decide) (Nat.lt_succ_of_le (hcount₂ 60 (by decide) (by decide))) (by rw [← h₃]; omega)
  have hfourth := @escapeLoop_restarts m 39 (str "&apos;") s₃ (s.length + 1) 0 hbits (by decide)
    (by decide) (Nat.lt_succ_of_le hcount₃) (by rw [← h₄]; omega)
  have hfifth := @escapeLoop_restarts m 34 (str "&quot;") s₄ (s.length + 1) 0 hbits (by decide)
    (by decide) (Nat.lt_succ_of_le hcount₄) (by rw [← h₅]; omega)
  rw [← h₂] at hsecond
  rw [← h₃] at hthird
  rw [← h₄] at hfourth
  rw [← h₅] at hfifth
  simp only [escapes, XmlMachine.escapeAll, hfirst, hsecond, hthird, hfourth, hfifth]

/-- With more bits the search that finds nothing ends in an exception. -/
theorem escapeLoop_threw (hbits : 32 < m.sizeBits) (hs : c ∉ s) (hlen : s.length < 2 ^ 32 - 1) :
    m.escapeLoop c entity goesOn (rounds + 1) 0 s = .threw := by
  have hfind : m.find s c 0 = 2 ^ m.sizeBits - 1 := by
    have h := @XmlMachine.find_of_not_mem m c s hs []
    rwa [List.nil_append, List.length_nil] at h
  have hpow : 2 ^ m.sizeBits = 2 ^ 32 * 2 ^ (m.sizeBits - 32) := by
    rw [← pow_add]
    congr 1
    omega
  have hbig : 2 ≤ 2 ^ (m.sizeBits - 32) := by
    calc 2 = 2 ^ 1 := rfl
      _ ≤ 2 ^ (m.sizeBits - 32) := Nat.pow_le_pow_right (by omega) (by omega)
  have hmod : (2 ^ m.sizeBits - 1) % 2 ^ 32 = 2 ^ 32 - 1 := by omega
  have hno : ¬ 2 ^ 32 - 1 = 2 ^ m.sizeBits - 1 := by omega
  have hreplace : CxxString.replace s (2 ^ 32 - 1 : ℕ) 1 entity = none := by
    rw [CxxString.replace, if_pos]
    omega
  rw [XmlMachine.escapeLoop]
  simp only [ite_self, hfind, hmod, if_neg hno, hreplace]

/-- **The loops end exactly on a machine of 32 bits.** -/
theorem escapesEnd_iff : EscapesEnd m ↔ m.sizeBits = 32 := by
  constructor
  · intro h
    by_contra hno
    have hbits : 32 < m.sizeBits := lt_of_le_of_ne m.sizeBits_ge (Ne.symm hno)
    have hroom : 0 < 2 ^ m.sizeBits - 1 := by
      have hle := Nat.pow_le_pow_right (show 0 < 2 by omega) m.sizeBits_ge
      omega
    -- the empty text is enough
    obtain ⟨rounds, out, hend⟩ := h [] hroom
    rw [escapes, XmlMachine.escapeAll] at hend
    cases rounds with
    | zero => simp [XmlMachine.escapeLoop] at hend
    | succ rounds =>
      have hthrew := @escapeLoop_threw m 38 (str "&amp;") [] true rounds hbits (by simp) (by simp)
      simp only [hthrew] at hend
      contradiction
  · intro hbits s hlen
    rw [hbits] at hlen
    exact ⟨s.length + 1, s.flatMap xmlByte, escapeAll_eq hbits hlen⟩

end

/-! ## Writing a row -/

/-- The strings of a row fit `char string_type[300]`. -/
def StringsFit (d : DbTable) : Prop :=
  ∀ x ∈ d.fields, ∀ s, x.value = .string s → (0 : UInt8) ∉ s ∧ s.length < 300

section

variable {m : XmlMachine} {d : DbTable}

theorem length_xmlByte_le (c : UInt8) : (xmlByte c).length ≤ 6 := by
  rw [xmlByte]
  repeat' split
  all_goals first | decide | simp

theorem length_flatMap_xmlByte_le (s : Bytes) : (s.flatMap xmlByte).length ≤ 6 * s.length := by
  induction s with
  | nil => simp
  | cons c s ih =>
    have hc := length_xmlByte_le c
    rw [List.flatMap_cons, List.length_append, List.length_cons]
    omega

/-- A value as it is written. -/
theorem xmlText_eq (hbits : m.sizeBits = 32) {v : DbValue}
    (hv : ∀ s, v = .string s → (0 : UInt8) ∉ s ∧ s.length < 300) :
    v.xmlText m = some (v.xmlWritten m) := by
  cases v with
  | string s =>
    obtain ⟨hzero, hlen⟩ := hv s rfl
    have hshort := length_flatMap_xmlByte_le s
    rw [DbValue.xmlText, stringType, cstr_eq_self hzero, if_pos hlen, Option.bind_some,
      XmlMachine.convert2WF, escapeAll_eq hbits (by omega)]
    rfl
  | _ => rfl

/-- **The row that is inserted.** -/
theorem makeRow_eq (hbits : m.sizeBits = 32) (hfit : StringsFit d) (marked : Bytes → Bool)
    (resMap : List XmlRow) (delim : ℕ) :
    makeRow m .insertRow marked d resMap delim =
      some (List.replicate (delim + 3) 32 ++ xmlRowTag m d) := by
  have hfields : ∀ fields : List DbField, (∀ x ∈ fields, x ∈ d.fields) →
      (fields.mapM fun f =>
        (if XmlAction.insertRow = .updateRow ∧ marked f.name = false then
          m.convert2WF (((resMap.headD []).lookup f.name).getD [])
        else f.value.xmlText m).map fun v => str " " ++ f.name ++ str " = '" ++ v ++ str "' ") =
      some (fields.map fun f =>
        str " " ++ f.name ++ str " = '" ++ f.value.xmlWritten m ++ str "' ") := by
    intro fields hmem
    induction fields with
    | nil => rfl
    | cons x fields ih =>
      rw [List.forall_mem_cons] at hmem
      rw [List.mapM_cons, ih hmem.2, if_neg (by simp), xmlText_eq hbits (hfit x hmem.1)]
      rfl
  simp only [makeRow, hfields d.fields fun x hx => hx, if_true, Option.map_some]
  simp only [xmlRowTag, List.append_assoc]

/-- The row as an element. -/
def newRow (m : XmlMachine) (d : DbTable) : XmlRowElement where
  tag :=
    { text := xmlRowTag m d
      head := rfl
      last := by
        rw [xmlRowTag, List.getLast?_append]
        rfl }
  el := str "row"
  attrs := xmlRowAttrs m d
  close := none
  isRow := row_isRow

/-- The line end and the blanks in front of it. -/
def lineGap (delim : ℕ) : XmlGap where
  text := 10 :: List.replicate (delim + 3) 32
  space := by
    intro c hc
    rcases List.mem_cons.mp hc with rfl | hc
    · exact .inr (.inr (.inl rfl))
    · exact .inl (List.eq_of_mem_replicate hc)

/-- The table with the row. -/
def XmlTable.withRow (m : XmlMachine) (d : DbTable) (delim : ℕ) (t : XmlTable) : XmlTable :=
  { t with first := lineGap delim, rows := (newRow m d, t.first) :: t.rows }

theorem text_withRow (t : XmlTable) (delim : ℕ) :
    xmlText (t.withRow m d delim).pieces = t.tag.text ++
      ((str "\n" ++ (List.replicate (delim + 3) 32 ++ xmlRowTag m d)) ++
        (t.first.text ++ (xmlText (rowPieces t.rows) ++ t.close.text))) := by
  simp [XmlTable.pieces, XmlTable.withRow, rowPieces_cons, XmlRowElement.pieces, newRow, lineGap,
    XmlPiece.text]
  rfl

/-! ## Inserting it -/

variable {marked : Bytes → Bool} {column : ℕ → ℕ} {p : ℕ} {s : XmlDbState}

/-- The attributes of the table that gets the row. -/
theorem tableAttrs_insert (hbits : m.sizeBits = 32) (hfit : StringsFit d) {attrs : XmlRow}
    {key name : Bytes}
    (hname : attrs.filter (fun a => !strcasecmp a.1 (str "name")) = [(key, name)])
    (hd : strcasecmp name d.name = false) {index count col : ℕ} {before behind : Bytes}
    (hbuff : s.dbBuff = before ++ behind) (hindex : index + count = before.length) :
    ∃ s', tableAttrs m .insertRow marked d index count col attrs s = some s' ∧ s'.skipObj = true ∧
      s'.dbBuff =
        before ++ (str "\n" ++ (List.replicate (col + 3) 32 ++ xmlRowTag m d)) ++ behind := by
  induction attrs with
  | nil => simp at hname
  | cons a attrs ih =>
    by_cases ha : strcasecmp a.1 (str "name") = true
    · rw [List.filter_cons_of_neg (by simp [ha])] at hname
      rw [tableAttrs, if_pos ha]
      exact ih hname
    · rw [List.filter_cons_of_pos (by simpa using ha), List.cons.injEq] at hname
      obtain ⟨rfl, hrest⟩ := hname
      have hpos : (index + count : ℤ) = before.length := by omega
      rw [tableAttrs, if_neg ha, if_neg (by simp [hd]), if_pos rfl,
        makeRow_eq hbits hfit]
      simp only [Option.bind_some, hbuff, hpos, CxxString.replace_zero,
        tableAttrs_of_filter_eq_nil hrest]
      exact ⟨_, rfl, rfl, rfl⟩

/-- **The table with the row.** -/
theorem run_table_insert [LongWidth] (hbits : m.sizeBits = 32) (hfit : StringsFit d) {t : XmlTable}
    (ht : t.Named d) {done tail : Bytes} (hbuff : s.dbBuff = done ++ xmlText t.pieces ++ tail)
    (hp : p = done.length) :
    ∃ s', xmlHandleAll m .insertRow marked d (xmlEvents column p t.pieces) s = some s' ∧
      s'.dbBuff = done ++ xmlText (t.withRow m d (column p)).pieces ++ tail := by
  have htext : s.dbBuff = (done ++ t.tag.text) ++
      (t.first.text ++ (xmlText (rowPieces t.rows) ++ t.close.text) ++ tail) := by
    rw [hbuff, XmlTable.pieces]
    simp [XmlPiece.text]
  obtain ⟨s₁, hattrs, hskip, hbuff₁⟩ := @tableAttrs_insert m d marked s hbits hfit _ _ _
    t.attrs_name ht p t.tag.text.length (column p) _ _ htext (by rw [hp, List.length_append])
  refine ⟨{ s₁ with skipObj := true }, ?_, ?_⟩
  · rw [run_table_of_start t hattrs, run_rows_skip t.rows hskip, Option.map_some]
  · rw [text_withRow]
    simpa only [List.append_assoc] using hbuff₁

/-- The file with the row. -/
def XmlDoc.withTable (f : XmlDoc) (pre post : List (XmlTable × XmlGap)) (t : XmlTable)
    (g : XmlGap) : XmlDoc := { f with tables := pre ++ (t, g) :: post }

/-- **The file with the row.** -/
theorem run_file_insert [LongWidth] (hbits : m.sizeBits = 32) (hfit : StringsFit d) {f : XmlDoc}
    {parse : Bytes → Option (List XmlEvent)} {pre post : List (XmlTable × XmlGap)} {t : XmlTable}
    {g : XmlGap} (htables : f.tables = pre ++ (t, g) :: post) (ht : t.Named d)
    (hpre : ∀ x ∈ pre, ¬ x.1.Named d) (hpost : ∀ x ∈ post, ¬ x.1.Named d)
    (hparse : parse f.text = some (xmlEvents column 0 f.pieces)) :
    ∃ s p, p ≤ f.text.length ∧ xmlAction m .insertRow marked d parse f.text = some s ∧
      s.dbBuff = (f.withTable pre post (t.withRow m d (column p)) g).text := by
  have htext : ∀ t' : XmlTable, (f.withTable pre post t' g).text =
      (f.prolog ++ f.tag.text ++ f.first.text ++ xmlText (tablePieces pre)) ++ xmlText t'.pieces ++
        (g.text ++ xmlText (tablePieces post) ++ (f.close.text ++ f.after.text)) := by
    intro t'
    rw [XmlDoc.text_eq, XmlDoc.withTable, tablePieces_append, tablePieces_cons]
    simp only [xmlText_append, xmlText_cons, List.append_assoc, XmlPiece.text]
  have hsame : f.withTable pre post t g = f := by
    rw [XmlDoc.withTable, ← htables]
  obtain ⟨p, hp⟩ : ∃ p, p = f.prolog.length + f.tag.text.length + f.first.text.length := ⟨_, rfl⟩
  have hbuff := htext t
  rw [hsame] at hbuff
  obtain ⟨s₁, hrun₁, hbuff₁, -⟩ := @run_tables_skip m .insertRow marked d
    ⟨f.text, [], false, 0, 0, 0⟩ column p _ pre hpre
  obtain ⟨s₂, hrun₂, hbuff₂⟩ := @run_table_insert m d marked column
    (p + (xmlText (tablePieces pre)).length) s₁ _ hbits hfit t ht _ _ (hbuff₁.trans hbuff) (by
      rw [hp]
      simp only [List.length_append])
  obtain ⟨s₃, hrun₃, hbuff₃, -⟩ := @run_tables_skip m .insertRow marked d s₂ column
    (p + (xmlText (tablePieces pre)).length + (xmlText t.pieces).length + g.text.length) _ post
    hpost
  refine ⟨{ s₃ with skipObj := true }, p + (xmlText (tablePieces pre)).length, ?_, ?_, ?_⟩
  · rw [hbuff, hp]
    simp only [List.length_append]
    omega
  · rw [xmlAction, hparse, Option.bind_some, run_file f (by decide), ← hp, htables,
      tablePieces_append, xmlEvents_append, xmlHandleAll_append, hrun₁, Option.bind_some,
      run_tables_cons, hrun₂, Option.bind_some, hrun₃, Option.map_some]
  · rw [htext]
    exact hbuff₃.trans hbuff₂

/-! ## Dates -/

/-- The fields of a date have the digits that they are written with. -/
structure Tm.Shown (tm : Tm) : Prop where
  year : 0 ≤ 1900 + tm.year ∧ 1900 + tm.year < 10000
  mon : 0 ≤ tm.mon + 1 ∧ tm.mon + 1 < 100
  mday : 0 ≤ tm.mday ∧ tm.mday < 100
  hour : 0 ≤ tm.hour ∧ tm.hour < 100
  min : 0 ≤ tm.min ∧ tm.min < 100
  sec : 0 ≤ tm.sec ∧ tm.sec < 100

theorem readDigits_zeros (k : ℕ) (b : Bytes) :
    readDigits 0 (List.replicate k 48 ++ b) = readDigits 0 b := by
  induction k with
  | zero => rfl
  | succ k ih =>
    rw [List.replicate_succ, List.cons_append, readDigits, if_pos (by decide)]
    exact ih

/-- A number with zeros in front. -/
theorem padded_spec {n : ℕ} (hn : 0 < n) {v : ℤ} (hv : 0 ≤ v ∧ v < 10 ^ n) :
    (padded n v).length = n ∧ (0 : UInt8) ∉ padded n v ∧
      leadingNumber (padded n v) = v := by
  obtain ⟨k, rfl⟩ := Int.eq_ofNat_of_zero_le hv.1
  have hk : k < 10 ^ n := by exact_mod_cast hv.2
  have hdigits : (str (toString k)).length ≤ n := length_toString_le hn hk
  have htext : padded n k = List.replicate (n - (str (toString k)).length) 48 ++
      str (toString k) := by
    rw [padded, if_neg (by omega)]
    rfl
  have hall : ∀ c ∈ padded n k, 48 ≤ c ∧ c ≤ 57 := by
    intro c hc
    rw [htext, List.mem_append] at hc
    rcases hc with hc | hc
    · rw [List.eq_of_mem_replicate hc]
      decide
    · exact digit_of_mem_toString hc
  refine ⟨?_, fun hzero => absurd (hall 0 hzero).1 (by decide), ?_⟩
  · rw [htext, List.length_append, List.length_replicate]
    omega
  · rw [leadingNumber_of_digit hall, htext, readDigits_zeros, readDigits_toString]

/-- The number at its place. -/
theorem numberAt_append [LongWidth] {n : ℕ} (hn : 0 < n ∧ n ≤ 9) {v : ℤ}
    (hv : 0 ≤ v ∧ v < 10 ^ n) {i : ℕ} {a b : Bytes} (hi : a.length = i) :
    numberAt (a ++ (padded n v ++ b)) i n = v := by
  obtain ⟨hlen, hzero, hread⟩ := padded_spec hn.1 hv
  rw [numberAt, ← hi, List.drop_left, List.take_left' hlen, cstr_eq_self hzero,
    atoi_eq (intNumber_of_length_le (by omega)), hread]

/-- **A date comes back** as `mktime` has it of the fields, with what `tm_isdst` happens to be. -/
theorem iso2time_time2iso [LongWidth] {t : ℤ} (h : (m.localtime t).Shown) :
    m.iso2time (m.time2iso t) = m.mktime { m.localtime t with isdst := m.isdst } := by
  obtain ⟨hyear, hmon, hmday, hhour, hmin, hsec⟩ := h
  obtain ⟨hy, hy0, -⟩ := padded_spec (show 0 < 4 by omega) hyear
  obtain ⟨ho, ho0, -⟩ := padded_spec (show 0 < 2 by omega) hmon
  obtain ⟨hd, hd0, -⟩ := padded_spec (show 0 < 2 by omega) hmday
  obtain ⟨hh, hh0, -⟩ := padded_spec (show 0 < 2 by omega) hhour
  obtain ⟨hi, hi0, -⟩ := padded_spec (show 0 < 2 by omega) hmin
  obtain ⟨hs, hs0, -⟩ := padded_spec (show 0 < 2 by omega) hsec
  have hone : (str "-").length = 1 ∧ (str " ").length = 1 ∧ (str ":").length = 1 := by decide
  have hzero : (0 : UInt8) ∉ str "-" ∧ (0 : UInt8) ∉ str " " ∧ (0 : UInt8) ∉ str ":" := by decide
  -- the text is not cut
  rw [XmlMachine.time2iso]
  simp only
  rw [snprintf_eq_self (by
    simp only [List.mem_append, not_or]
    exact ⟨⟨⟨⟨⟨⟨⟨⟨⟨⟨hy0, hzero.1⟩, ho0⟩, hzero.1⟩, hd0⟩, hzero.2.1⟩, hh0⟩, hzero.2.2⟩, hi0⟩,
      hzero.2.2⟩, hs0⟩) (by simp only [List.length_append, hy, ho, hd, hh, hi, hs, hone]; omega),
    XmlMachine.iso2time]
  -- every number is read at its place
  have h0 := fun b => @numberAt_append _ 4 (by omega) _ hyear 0 [] b rfl
  have h5 := fun b => @numberAt_append _ 2 (by omega) _ hmon 5
    (padded 4 (1900 + (m.localtime t).year) ++ str "-") b (by simp [hy, hone])
  have h8 := fun b => @numberAt_append _ 2 (by omega) _ hmday 8
    (padded 4 (1900 + (m.localtime t).year) ++ str "-" ++ padded 2 ((m.localtime t).mon + 1) ++
      str "-") b (by simp [hy, ho, hone])
  have h11 := fun b => @numberAt_append _ 2 (by omega) _ hhour 11
    (padded 4 (1900 + (m.localtime t).year) ++ str "-" ++ padded 2 ((m.localtime t).mon + 1) ++
      str "-" ++ padded 2 (m.localtime t).mday ++ str " ") b (by simp [hy, ho, hd, hone])
  have h14 := fun b => @numberAt_append _ 2 (by omega) _ hmin 14
    (padded 4 (1900 + (m.localtime t).year) ++ str "-" ++ padded 2 ((m.localtime t).mon + 1) ++
      str "-" ++ padded 2 (m.localtime t).mday ++ str " " ++ padded 2 (m.localtime t).hour ++
      str ":") b (by simp [hy, ho, hd, hh, hone])
  have h17 := @numberAt_append _ 2 (by omega) _ hsec 17
    (padded 4 (1900 + (m.localtime t).year) ++ str "-" ++ padded 2 ((m.localtime t).mon + 1) ++
      str "-" ++ padded 2 (m.localtime t).mday ++ str " " ++ padded 2 (m.localtime t).hour ++
      str ":" ++ padded 2 (m.localtime t).min ++ str ":") [] (by simp [hy, ho, hd, hh, hi, hone])
  simp only [List.append_assoc, List.nil_append, List.append_nil] at h0 h5 h8 h11 h14 h17 ⊢
  rw [h0, h5, h8, h11, h14, h17]
  congr 2
  all_goals omega

/-! ## Reading it -/

/-- The pieces of the file with the row are read, if its tag is. -/
theorem read_withRow {reads : XmlPiece → Prop} {f : XmlDoc} {pre post : List (XmlTable × XmlGap)}
    {t : XmlTable} {g : XmlGap} (htables : f.tables = pre ++ (t, g) :: post)
    (hread : f.Read reads) (htag : reads (.empty (xmlRowTag m d) (str "row") (xmlRowAttrs m d)))
    (delim : ℕ) : (f.withTable pre post (t.withRow m d delim) g).Read reads := by
  intro x hmem
  by_cases hx : x.isGap = true
  · exact .inl hx
  · have hgap : x.isGap = false := by simpa using hx
    have hno : ∀ g : XmlGap, x ≠ .gap g.text := by
      rintro g rfl
      contradiction
    -- a piece of another table, or of this one, or the row
    have hpieces : x ∈ f.pieces ∨ x = .empty (xmlRowTag m d) (str "row") (xmlRowAttrs m d) := by
      simp only [XmlDoc.pieces, XmlDoc.withTable, List.mem_cons, List.mem_append, htables,
        mem_tablePieces_iff hgap, List.not_mem_nil, or_false] at hmem ⊢
      rcases hmem with hmem | hmem | hmem | hmem | hmem
      · exact .inl (.inl hmem)
      · exact .inl (.inr (.inl hmem))
      · exact .inl (.inr (.inr (.inl hmem)))
      · obtain ⟨y, hy | rfl | hy, hxy⟩ := hmem
        · exact .inl (.inr (.inr (.inr (.inl ⟨y, .inl hy, hxy⟩))))
        · simp only [XmlTable.withRow, XmlTable.pieces, rowPieces_cons, List.mem_cons,
            List.mem_append, hno, false_or, List.not_mem_nil, or_false] at hxy
          rcases hxy with hxy | (hxy | hxy) | hxy
          · refine .inl (.inr (.inr (.inr (.inl ⟨(t, g), .inr (.inl rfl), ?_⟩))))
            simp [XmlTable.pieces, hxy]
          · exact .inr (List.mem_singleton.mp hxy)
          · refine .inl (.inr (.inr (.inr (.inl ⟨(t, g), .inr (.inl rfl), ?_⟩))))
            simp [XmlTable.pieces, hxy]
          · refine .inl (.inr (.inr (.inr (.inl ⟨(t, g), .inr (.inl rfl), ?_⟩))))
            simp [XmlTable.pieces, hxy]
        · exact .inl (.inr (.inr (.inr (.inl ⟨y, .inr (.inr hy), hxy⟩))))
      · exact .inl (.inr (.inr (.inr (.inr hmem))))
    rcases hpieces with hold | rfl
    · exact hread x hold
    · exact .inr htag

/-- The length of the file with the row. -/
theorem length_withRow {f : XmlDoc} {pre post : List (XmlTable × XmlGap)} {t : XmlTable}
    {g : XmlGap} (htables : f.tables = pre ++ (t, g) :: post) (delim : ℕ) :
    (f.withTable pre post (t.withRow m d delim) g).text.length =
      f.text.length + (delim + 4) + (xmlRowTag m d).length := by
  have hrow := congrArg List.length (@text_withRow m d t delim)
  have hold := congrArg List.length (show xmlText t.pieces = t.tag.text ++ (t.first.text ++
    (xmlText (rowPieces t.rows) ++ t.close.text)) by simp [XmlTable.pieces, XmlPiece.text])
  rw [XmlDoc.text_eq, XmlDoc.text_eq, XmlDoc.withTable, htables, tablePieces_append,
    tablePieces_append, tablePieces_cons, tablePieces_cons]
  simp only [xmlText_append, xmlText_cons, List.length_append, List.length_replicate,
    show (str "\n").length = 1 by decide] at hrow hold ⊢
  omega

/-- A request for all rows. -/
theorem xdbCompareRow_clear [LongWidth] (attrs : XmlRow) :
    xdbCompareRow m d.clear attrs = some true := by
  rw [xdbCompareRow, DbTable.clear]
  induction d.fields with
  | nil => rfl
  | cons x fields ih =>
    rw [List.map_cons, compareFields, if_neg Bool.false_ne_true]
    exact ih

theorem matching_clear [LongWidth] (rows : List XmlRowElement) :
    matching m d.clear rows = rows := by
  rw [matching, List.filter_eq_self]
  intro r _
  simp [XmlRowElement.Matches, xdbCompareRow_clear]

/-- The number of an `int`. -/
theorem int_kept_iff [LongWidth] (n : ℕ) :
    (atoi (signedText n) % 18446744073709551616).toNat = n ↔
      n < 2147483648 ∨ 18446744071562067968 ≤ n ∧ n < 18446744073709551616 := by
  rw [signedText, atoi_toString (intNumber_toInt n), toInt, Int.bmod_def]
  split <;> omega

/-- **The value of one field.** -/
theorem xmlRead_eq_iff [LongWidth] (v : DbValue) :
    v.cleared.xmlRead m (v.xmlValue m) = v ↔ v.XmlKept m := by
  cases v with
  | bool b => cases b <;> simp [DbValue.cleared, DbValue.xmlRead, DbValue.xmlValue,
      DbValue.XmlKept] <;> decide
  | int n =>
    simp only [DbValue.cleared, DbValue.xmlRead, DbValue.xmlValue, DbValue.XmlKept,
      DbValue.int.injEq, int_kept_iff]
  | float x => simp [DbValue.cleared, DbValue.xmlRead, DbValue.xmlValue, DbValue.XmlKept]
  | string s => simp [DbValue.cleared, DbValue.xmlRead, DbValue.xmlValue, DbValue.XmlKept]
  | date t => simp [DbValue.cleared, DbValue.xmlRead, DbValue.xmlValue, DbValue.XmlKept]
  | ip v => simp [DbValue.cleared, DbValue.xmlRead, DbValue.XmlKept, eq_comm]

/-- The text of a field among the attributes. -/
theorem lookup_xmlRowAttrs (hd : (d.fields.map DbField.name).Nodup) {x : DbField}
    (hx : x ∈ d.fields) : (xmlRowAttrs m d).lookup x.name = some (x.value.xmlValue m) := by
  rw [xmlRowAttrs]
  generalize d.fields = fields at hd hx
  induction fields with
  | nil => simp at hx
  | cons y fields ih =>
    rw [List.map_cons, List.nodup_cons] at hd
    rw [List.map_cons, List.lookup_cons]
    rcases List.mem_cons.mp hx with rfl | hx
    · simp
    · have hne : x.name ≠ y.name := fun heq => hd.1 (heq ▸ List.mem_map_of_mem hx)
      rw [show (x.name == y.name) = false by simpa using hne]
      exact ih hd.2 hx

/-- **The values that are read.** -/
theorem xdbGet_values [LongWidth] (hd : (d.fields.map DbField.name).Nodup) {rows : List XmlRow} :
    ∃ d', xdbGet m (xmlRowAttrs m d :: rows) 0 d.clear = some d' ∧
      (d'.fields.map DbField.value = d.fields.map DbField.value ↔
        ∀ x ∈ d.fields, x.value.XmlKept m) := by
  refine ⟨_, rfl, ?_⟩
  simp only [DbTable.clear, List.map_map]
  rw [List.map_inj_left]
  apply forall₂_congr
  intro x hx
  simp only [Function.comp_apply, Bool.false_eq_true, if_false, lookup_xmlRowAttrs hd hx,
    Option.getD_some]
  exact xmlRead_eq_iff x.value

/-- The rows of the one table with the name. -/
theorem rowsOfTables_one {pre post : List (XmlTable × XmlGap)} {t : XmlTable} (g : XmlGap)
    (ht : t.Named d) (hpre : ∀ x ∈ pre, ¬ x.1.Named d) (hpost : ∀ x ∈ post, ¬ x.1.Named d) :
    rowsOfTables d.clear (pre ++ (t, g) :: post) = t.rows := by
  have hnone : ∀ tables : List (XmlTable × XmlGap), (∀ x ∈ tables, ¬ x.1.Named d) →
      (tables.flatMap fun x => if x.1.Named d.clear then x.1.rows else []) = [] := by
    intro tables hno
    rw [List.flatMap_eq_nil_iff]
    intro x hx
    exact if_neg (hno x hx)
  have ht' : t.Named d.clear := ht
  rw [rowsOfTables, List.flatMap_append, List.flatMap_cons, hnone pre hpre, hnone post hpost,
    if_pos ht', List.nil_append, List.append_nil]

/-- When a row comes back, on a machine of 32 bits. -/
theorem xmlRowBack_iff [LongWidth] (hbits : m.sizeBits = 32) {reads : XmlPiece → Prop}
    {parse : Bytes → Option (List XmlEvent)}
    (hexpat : ExpatReports reads parse) (f : XmlDataFile) (hread : f.Read reads)
    {pre post : List (XmlTable × XmlGap)} {t : XmlTable} {g : XmlGap}
    (htables : f.tables = pre ++ (t, g) :: post) (ht : t.Named d)
    (hpre : ∀ x ∈ pre, ¬ x.1.Named d) (hpost : ∀ x ∈ post, ¬ x.1.Named d)
    (hroom : 2 * f.text.length + 4 + (xmlRowTag m d).length < 2147483648)
    (hd : (d.fields.map DbField.name).Nodup) (hfit : StringsFit d)
    (hunescape : reads (.empty (xmlRowTag m d) (str "row") (xmlRowAttrs m d))) :
    XmlRowBack m marked parse d f.toXmlDoc ↔ ∀ x ∈ d.fields, x.value.XmlKept m := by
  obtain ⟨column, hcolumn, hparse⟩ := hexpat f hread
  obtain ⟨s, p, hp, hinsert, hbuff⟩ := @run_file_insert m d marked column _ hbits hfit f.toXmlDoc
    parse pre post t g htables ht hpre hpost hparse
  have hshort : (f.withTable pre post (t.withRow m d (column p)) g).text.length < 2147483648 := by
    have hcol := hcolumn p
    rw [length_withRow htables]
    omega
  obtain ⟨column', -, hparse'⟩ := hexpat ⟨_, hshort⟩ (read_withRow htables hread hunescape _)
  obtain ⟨s', hselect, hres⟩ := @run_file_select m marked d.clear column' _
    (f.withTable pre post (t.withRow m d (column p)) g) parse hparse'
    fun x _ => by rw [xdbCompareRow_clear]; rfl
  have hrows : s'.resMap = xmlRowAttrs m d :: t.rows.map fun x => x.1.attrs := by
    have ht' : (t.withRow m d (column p)).Named d := ht
    rw [hres, matching_clear, XmlDoc.withTable, rowsOfTables_one g ht' hpre hpost,
      XmlTable.withRow, List.map_cons, List.map_cons, List.map_map]
    rfl
  obtain ⟨d', hget, hvalues⟩ := @xdbGet_values m d _ hd (t.rows.map fun x => x.1.attrs)
  rw [← hvalues, XmlRowBack]
  constructor
  · rintro ⟨s₁, s₁', d₁, hinsert₁, hselect₁, hget₁, hback⟩
    obtain rfl := Option.some.inj (hinsert.symm.trans hinsert₁)
    rw [hbuff] at hselect₁
    obtain rfl := Option.some.inj (hselect.symm.trans hselect₁)
    rw [hrows] at hget₁
    obtain rfl := Option.some.inj (hget.symm.trans hget₁)
    exact hback
  · intro hback
    exact ⟨s, s', d', hinsert, by rw [hbuff, hselect], by rw [hrows, hget], hback⟩

end

/-! ## Two more rows -/

/-- A row with a number and a string. -/
def sampleText : DbTable :=
  ⟨str "t", [⟨str "a", false, .int 7⟩, ⟨str "b", false, .string (str "x&y")⟩]⟩

/-- A row with a number and an address. -/
def sampleAddress : DbTable :=
  ⟨str "t", [⟨str "a", false, .int 7⟩, ⟨str "u", false, .ip (str "10.0.0.1")⟩]⟩

/-- A file with a table of two rows. -/
def sampleFile : XmlDataFile where
  toXmlDoc := sampleDoc newlineGap
  short := sampleDoc_short

theorem wide_sizeBits : 32 ≤ 64 := by decide

/-- A machine of 64 bits. -/
def XmlMachine.wide : XmlMachine :=
  { XmlMachine.sample with sizeBits := 64, sizeBits_ge := wide_sizeBits }

theorem stringsFit_sampleText : StringsFit sampleText := by
  intro x hx s hs
  rcases List.mem_cons.mp hx with rfl | hx
  · contradiction
  · obtain rfl := List.mem_singleton.mp hx
    obtain rfl := DbValue.string.inj hs
    decide

end Tacppd
