/-
# The calls of the pgsql driver

`db_query`, `db_update` and `db_del` take the mutex of the driver, build a statement and
give the mutex back after the server has answered.  The builders write every name and every
condition with its separator behind it and erase the last separator afterwards.  For an
empty list `size()-1` is no position of the string, so that `erase` throws, and nothing
gives the mutex back; the conditions are erased under a test of their own, so that an empty
list of them is sent.

`calls_safe_iff` says of every run of calls which ones are safe.
-/
import Tacppd.Statements
import Tacppd.Lib.Joined

namespace Tacppd

/-! ## The calls -/

/-- How a call ends. -/
inductive PgExit
  /-- It waits for the mutex. -/
  | blocked
  /-- `erase` throws `std::out_of_range`. -/
  | threw
  /-- It returns, with the statement that has been sent, and `derr` where it has failed. -/
  | returned (sent derr : Option Bytes)
  deriving DecidableEq, Repr

/-- A call, with the table description that it is given.  The fields to be updated are marked
by their names. -/
inductive PgStatement
  | query (d : DbTable)
  | update (d : DbTable) (marked : Bytes → Bool)
  | del (d : DbTable)

/-- The statement of a call; nothing where `erase` throws. -/
def PgStatement.build (time2iso : ℤ → Bytes) : PgStatement → Option Bytes
  | query d => dbQuery time2iso d
  | update d marked => dbUpdate time2iso marked d
  | del d => some (dbDel time2iso d)

/-- One call, on the mutex: `con` are the numbers of the open connections, and `answer` is the
error of the server for a statement that it does not take. -/
def PgStatement.run (time2iso : ℤ → Bytes) (answer : Bytes → Option Bytes) (con : List ℤ)
    (num : ℤ) (call : PgStatement) (locked : Bool) : Bool × PgExit :=
  if locked then (locked, .blocked)
  else if num ∉ con then (false, .returned none (some (str "No connection open")))
  else
    match call.build time2iso with
    | none => (true, .threw)
    | some req => (false, .returned (some req) (answer req))

/-- A call on a connection. -/
structure PgRequest where
  con : List ℤ
  num : ℤ
  call : PgStatement

/-- One call after the other: how each of them ends, and the mutex after it. -/
def pgRun (time2iso : ℤ → Bytes) (answer : Bytes → Option Bytes) :
    List PgRequest → Bool → List (PgRequest × Bool × PgExit)
  | [], _ => []
  | r :: rs, locked =>
    let outcome := r.call.run time2iso answer r.con r.num locked
    (r, outcome) :: pgRun time2iso answer rs outcome.1

/-! ## Complete statements -/

/-- `name=value` for each of the fields. -/
def assignments (shown : DbValue → Bytes) (fields : List DbField) : List Bytes :=
  fields.map fun f => f.shownName ++ str "=" ++ shown f.value

/-- The statement that belongs to a call: its lists are not empty, and there are separators
between their pieces only.  A SELECT for every row has no WHERE. -/
def PgStatement.Complete (time2iso : ℤ → Bytes) (req : Bytes) : PgStatement → Prop
  | query d =>
    let names := (d.fields.filter fun f => !f.request).map DbField.name
    let conds := assignments (DbValue.shown time2iso) (d.fields.filter fun f => f.request)
    names ≠ [] ∧
      req = str "SELECT " ++ (str ",").intercalate names ++ str " FROM " ++ d.name ++
        (if conds = [] then [] else str " WHERE " ++ (str " AND ").intercalate conds)
  | update d marked =>
    let sets := assignments (DbValue.shownUpdate time2iso)
      (d.fields.filter fun f => marked f.name)
    let conds := assignments (DbValue.shownUpdate time2iso)
      (d.fields.filter fun f => f.request)
    sets ≠ [] ∧ conds ≠ [] ∧
      req = str "UPDATE " ++ d.name ++ str " SET " ++ (str ",").intercalate sets ++
        str " WHERE " ++ (str " AND ").intercalate conds
  | del d =>
    let conds := assignments (DbValue.shownUpdate time2iso)
      (d.fields.filter fun f => f.request)
    conds ≠ [] ∧
      req = str "DELETE FROM " ++ d.name ++ str " WHERE " ++ (str " AND ").intercalate conds

/-- The call returns, what it has sent is complete, and the mutex is free again. -/
def PgStatement.Safe (time2iso : ℤ → Bytes) (call : PgStatement)
    (outcome : Bool × PgExit) : Prop :=
  outcome.1 = false ∧ ∃ sent derr, outcome.2 = .returned sent derr ∧
    ∀ req, sent = some req → call.Complete time2iso req

/-- The fields that a call needs: a SELECT one that is not asked for, an UPDATE one that is
set and one that is asked for, and a DELETE one that is asked for. -/
def PgStatement.HasFields : PgStatement → Prop
  | query d => ∃ f ∈ d.fields, f.request = false
  | update d marked =>
    (∃ f ∈ d.fields, marked f.name = true) ∧ ∃ f ∈ d.fields, f.request = true
  | del d => ∃ f ∈ d.fields, f.request = true

/-! ## What the builders write -/

section

variable {time2iso : ℤ → Bytes} {shown : DbValue → Bytes} {fields : List DbField}

theorem filter_ne_nil_iff (p : DbField → Bool) :
    fields.filter p ≠ [] ↔ ∃ f ∈ fields, p f = true := by
  rw [ne_eq, List.filter_eq_nil_iff]
  push Not
  rfl

theorem assignments_ne_nil (h : fields ≠ []) : assignments shown fields ≠ [] := by
  rwa [assignments, ne_eq, List.map_eq_nil_iff]

theorem mem_assignments_ne_nil {x : Bytes} (h : x ∈ assignments shown fields) : x ≠ [] := by
  obtain ⟨f, -, rfl⟩ := List.mem_map.mp h
  intro hnil
  exact absurd (List.append_eq_nil_iff.mp (List.append_eq_nil_iff.mp hnil).1).2 (by decide)

/-- The loop over the conditions. -/
theorem map_condition (shown : DbValue → Bytes) (fields : List DbField) :
    fields.map (condition shown) = (assignments shown fields).map (· ++ str " AND ") := by
  rw [assignments, List.map_map]
  rfl

/-- The conditions that are sent. -/
theorem conditions_eq_intercalate (h : ∃ f ∈ fields, f.request = true) :
    conditions shown fields =
      (str " AND ").intercalate (assignments shown (fields.filter fun f => f.request)) := by
  have hne : assignments shown (fields.filter fun f => f.request) ≠ [] :=
    assignments_ne_nil ((filter_ne_nil_iff fun f => f.request).mpr h)
  have hlong := @Joined.length_lt_flatten_map _ (str " AND ") _ hne
    fun x hx => mem_assignments_ne_nil hx
  have hand : (str " AND ").length = 5 := by decide
  rw [hand] at hlong
  rw [conditions, map_condition]
  simp only [if_pos hlong]
  rw [← Joined.take_flatten_map _ hne, hand]

/-- Nothing is asked for. -/
theorem conditions_eq_nil (h : ¬ ∃ f ∈ fields, f.request = true) :
    conditions shown fields = [] := by
  have hnil : (fields.filter fun f => f.request) = [] := by
    by_contra hne
    exact h ((filter_ne_nil_iff _).mp hne)
  simp [conditions, hnil]

end

section

variable {time2iso : ℤ → Bytes} {d : DbTable} {marked : Bytes → Bool}

/-- A SELECT with a field that is not asked for. -/
theorem dbQuery_complete (h : ∃ f ∈ d.fields, f.request = false) :
    ∃ req, dbQuery time2iso d = some req ∧ (PgStatement.query d).Complete time2iso req := by
  have hall : (d.fields.all fun f => f.request) = false := by
    obtain ⟨f, hf, hreq⟩ := h
    rw [List.all_eq_false]
    exact ⟨f, hf, by simp [hreq]⟩
  have hnames : (d.fields.filter fun f => !f.request).map DbField.name ≠ [] := by
    rw [ne_eq, List.map_eq_nil_iff]
    exact (filter_ne_nil_iff _).mpr (by simpa using h)
  have hlist : selectList d =
      (str ",").intercalate ((d.fields.filter fun f => !f.request).map DbField.name) := by
    rw [show str "," = [44] by decide, ← Joined.dropLast_flatten_map 44 hnames, selectList,
      List.map_map]
    rfl
  have hwhere : whereList time2iso d = conditions (DbValue.shown time2iso) d.fields := rfl
  refine ⟨_, by rw [dbQuery, hall, if_neg Bool.false_ne_true], hnames, ?_⟩
  simp only [hlist, hwhere]
  by_cases hreq : ∃ f ∈ d.fields, f.request = true
  · have hne : assignments (DbValue.shown time2iso) (d.fields.filter fun f => f.request) ≠ [] :=
      assignments_ne_nil ((filter_ne_nil_iff _).mpr hreq)
    have hlong : 0 < (conditions (DbValue.shown time2iso) d.fields).length := by
      rw [conditions_eq_intercalate hreq, List.length_pos_iff]
      intro hnil
      obtain ⟨x, l, hl⟩ := List.exists_cons_of_ne_nil hne
      have hx := mem_assignments_ne_nil (hl ▸ List.mem_cons_self)
      rw [hl] at hnil
      rcases l with _ | ⟨y, l⟩
      · exact hx (by simpa using hnil)
      · rw [List.intercalate_cons_cons] at hnil
        exact hx (List.append_eq_nil_iff.mp (List.append_eq_nil_iff.mp hnil).1).1
    rw [if_pos hlong, if_neg hne, conditions_eq_intercalate hreq]
    simp only [List.append_assoc]
  · have hnil : (d.fields.filter fun f => f.request) = [] := by
      by_contra hne
      exact hreq ((filter_ne_nil_iff _).mp hne)
    rw [conditions_eq_nil hreq, hnil]
    simp [assignments]

/-- What is set. -/
theorem settings_dropLast (h : ∃ f ∈ d.fields, marked f.name = true) :
    settings time2iso marked d.fields ≠ [] ∧
      (settings time2iso marked d.fields).dropLast =
        (str ",").intercalate (assignments (DbValue.shownUpdate time2iso)
          (d.fields.filter fun f => marked f.name)) := by
  have hne : assignments (DbValue.shownUpdate time2iso)
      (d.fields.filter fun f => marked f.name) ≠ [] :=
    assignments_ne_nil ((filter_ne_nil_iff _).mpr h)
  have hmap : settings time2iso marked d.fields =
      ((assignments (DbValue.shownUpdate time2iso)
        (d.fields.filter fun f => marked f.name)).map (· ++ [44])).flatten := by
    rw [settings, assignments, List.map_map]
    rfl
  rw [hmap, show str "," = [44] by decide]
  refine ⟨?_, Joined.dropLast_flatten_map 44 hne⟩
  rw [Joined.flatten_map_append _ hne]
  simp

/-- An UPDATE with a field to be set. -/
theorem dbUpdate_eq (h : ∃ f ∈ d.fields, marked f.name = true) :
    dbUpdate time2iso marked d = some (str "UPDATE " ++ d.name ++ str " SET " ++
      (str ",").intercalate (assignments (DbValue.shownUpdate time2iso)
        (d.fields.filter fun f => marked f.name)) ++ str " WHERE " ++
      conditions (DbValue.shownUpdate time2iso) d.fields) := by
  obtain ⟨hne, hdrop⟩ := @settings_dropLast time2iso d marked h
  rw [dbUpdate]
  simp only [if_neg hne, hdrop]

/-- An UPDATE with no field to be set. -/
theorem dbUpdate_eq_none (h : ¬ ∃ f ∈ d.fields, marked f.name = true) :
    dbUpdate time2iso marked d = none := by
  have hnil : (d.fields.filter fun f => marked f.name) = [] := by
    by_contra hne
    exact h ((filter_ne_nil_iff _).mp hne)
  simp [dbUpdate, settings, hnil]

/-- Where no field is asked for, there is no complete UPDATE or DELETE. -/
theorem assignments_eq_nil (shown : DbValue → Bytes) (h : ¬ ∃ f ∈ d.fields, f.request = true) :
    assignments shown (d.fields.filter fun f => f.request) = [] := by
  have hnil : (d.fields.filter fun f => f.request) = [] := by
    by_contra hne
    exact h ((filter_ne_nil_iff _).mp hne)
  rw [hnil]
  rfl

/-- **A call builds a complete statement** exactly when it has the fields that it needs. -/
theorem build_complete_iff (call : PgStatement) :
    (∃ req, call.build time2iso = some req ∧ call.Complete time2iso req) ↔ call.HasFields := by
  cases call with
  | query d =>
    refine ⟨?_, dbQuery_complete⟩
    rintro ⟨req, hreq, hnames, -⟩
    rw [ne_eq, List.map_eq_nil_iff] at hnames
    obtain ⟨f, hf, hreq⟩ := (filter_ne_nil_iff _).mp hnames
    exact ⟨f, hf, by simpa using hreq⟩
  | update d marked =>
    constructor
    · rintro ⟨req, hreq, hsets, hconds, -⟩
      constructor
      · by_contra hno
        rw [PgStatement.build, dbUpdate_eq_none hno] at hreq
        contradiction
      · by_contra hno
        exact hconds (assignments_eq_nil _ hno)
    · rintro ⟨hset, hask⟩
      refine ⟨_, dbUpdate_eq hset, ?_, ?_, ?_⟩
      · exact assignments_ne_nil ((filter_ne_nil_iff _).mpr hset)
      · exact assignments_ne_nil ((filter_ne_nil_iff _).mpr hask)
      · rw [conditions_eq_intercalate hask]
  | del d =>
    constructor
    · rintro ⟨req, hreq, hconds, -⟩
      by_contra hno
      exact hconds (assignments_eq_nil _ hno)
    · intro hask
      refine ⟨_, rfl, assignments_ne_nil ((filter_ne_nil_iff _).mpr hask), ?_⟩
      rw [dbDel, conditions_eq_intercalate hask]

end

/-! ## Runs -/

section

variable (time2iso : ℤ → Bytes) (answer : Bytes → Option Bytes)

/-- One call with the mutex free. -/
theorem run_safe_iff (con : List ℤ) (num : ℤ) (call : PgStatement) :
    call.Safe time2iso (call.run time2iso answer con num false) ↔
      (num ∈ con → call.HasFields) := by
  rw [← @build_complete_iff time2iso call, PgStatement.run, if_neg Bool.false_ne_true]
  by_cases hcon : num ∈ con
  · rw [if_neg (not_not_intro hcon), forall_prop_of_true hcon]
    cases hbuild : call.build time2iso with
    | none => simp [PgStatement.Safe]
    | some req => simp [PgStatement.Safe]
  · rw [if_pos hcon]
    refine iff_of_true ⟨rfl, none, _, rfl, by simp⟩ fun h => absurd h hcon

/-- **Every call of a run is safe** exactly when every call on an open connection has the
fields that it needs. -/
theorem calls_safe_iff (rs : List PgRequest) :
    (∀ x ∈ pgRun time2iso answer rs false, x.1.call.Safe time2iso x.2) ↔
      ∀ r ∈ rs, r.num ∈ r.con → r.call.HasFields := by
  induction rs with
  | nil => simp [pgRun]
  | cons r rs ih =>
    have hstep := run_safe_iff time2iso answer r.con r.num r.call
    rw [pgRun, List.forall_mem_cons, List.forall_mem_cons, hstep]
    refine and_congr_right fun hfields => ?_
    -- a safe call gives the mutex back, and the rest of the run begins as this one
    rw [(hstep.mpr hfields).1, ih]

end

/-- A table whose fields are all asked for. -/
def keyTable : DbTable := ⟨str "t", [⟨str "id", true, .int 1⟩]⟩

/-- A SELECT on such a table throws, and the SELECT for a user waits for ever. -/
theorem query_all_requested :
    (pgRun (fun _ => []) (fun _ => none)
      [⟨[1], 1, .query keyTable⟩, ⟨[1], 1, .query (usrRequest (str "joe"))⟩] false).map Prod.snd =
      [(true, .threw), (true, .blocked)] ∧
    ¬ ∀ (time2iso : ℤ → Bytes) (answer : Bytes → Option Bytes) (rs : List PgRequest),
      ∀ x ∈ pgRun time2iso answer rs false, x.1.call.Safe time2iso x.2 := by
  refine ⟨by decide +kernel, fun hall => ?_⟩
  have hsafe := hall (fun _ => []) (fun _ => none) [⟨[1], 1, .query keyTable⟩] _
    List.mem_cons_self
  have hlocked := hsafe.1
  revert hlocked
  decide +kernel

end Tacppd
