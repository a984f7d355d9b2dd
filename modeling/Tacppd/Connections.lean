/-
# Connection ids

`db_open` of a database driver looks for an id that no open connection has: it counts up
from 1, and when it meets a connection with the number it goes on with the next number
from the start of the list.  It sets the iterator to the start and the loop then
increments it, so that the first connection is skipped from there on.

The number that is found is free unless it is the id of the first connection
(`mem_freshNum_iff`).  `ids_unique_iff` says on which runs of opens and closes the ids stay
unique, for both drivers.
-/
import Tacppd.Lib.Keyed
import Tacppd.Lib.Machine
import Mathlib.Algebra.Order.Ring.Int

namespace Tacppd

/-! ## The search for an id -/

/-- The loop of `db_open` over the ids of the open connections, with the part of the list
that the iterator has before it.  Nothing when the rounds run out, which does not happen
(`scanLoop_isSome`). -/
def scanLoop (con : List ℤ) : ℕ → List ℤ → ℤ → Option ℤ
  | _, [], num => some num
  | 0, _ :: _, _ => none
  | fuel + 1, tmp :: rest, num =>
    -- `i = con.begin()`, and then the `i++` of the loop
    if tmp = num then scanLoop con fuel con.tail (num + 1) else scanLoop con fuel rest num

/-- The id for a new connection. -/
def freshNum (con : List ℤ) : Option ℤ := scanLoop con ((con.length + 1) * (con.length + 1)) con 1

/-- The ids from a number on. -/
def idsFrom (num : ℤ) (con : List ℤ) : ℕ := con.countP fun k => decide (num ≤ k)

theorem idsFrom_succ_lt {num : ℤ} {con : List ℤ} (h : num ∈ con) :
    idsFrom (num + 1) con < idsFrom num con := by
  induction con with
  | nil => simp at h
  | cons k con ih =>
    have hle : idsFrom (num + 1) con ≤ idsFrom num con := by
      apply List.countP_mono_left
      intro x _ hx
      simp only [decide_eq_true_eq] at hx ⊢
      omega
    simp only [idsFrom, List.countP_cons, decide_eq_true_eq] at ih hle ⊢
    rcases List.mem_cons.mp h with rfl | h
    · rw [if_neg (by omega), if_pos le_rfl]
      omega
    · have hlt := ih h
      split <;> split <;> omega

/-- Every restart leaves fewer ids to meet. -/
theorem scanLoop_isSome (con : List ℤ) {fuel : ℕ} {rest : List ℤ} {num : ℤ} (hsub : rest ⊆ con)
    (hfuel : rest.length + idsFrom num con * con.length ≤ fuel) :
    (scanLoop con fuel rest num).isSome = true := by
  induction fuel generalizing rest num with
  | zero =>
    obtain rfl := List.length_eq_zero_iff.mp (show rest.length = 0 by omega)
    rfl
  | succ fuel ih =>
    cases rest with
    | nil => rfl
    | cons tmp rest =>
      rw [List.cons_subset] at hsub
      rw [List.length_cons] at hfuel
      rw [scanLoop]
      split
      · next heq =>
        subst heq
        -- the restart costs a round of the list, and there is one id less to meet
        have hlt := idsFrom_succ_lt hsub.1
        have hmul : (idsFrom (tmp + 1) con + 1) * con.length ≤ idsFrom tmp con * con.length :=
          Nat.mul_le_mul_right _ hlt
        rw [Nat.add_mul, Nat.one_mul] at hmul
        have htail : con.tail.length ≤ con.length := by
          rw [List.length_tail]
          omega
        exact ih (fun x hx => List.mem_of_mem_tail hx) (by omega)
      · exact ih hsub.2 (by omega)

theorem freshNum_isSome (con : List ℤ) : ∃ n, freshNum con = some n := by
  rw [← Option.isSome_iff_exists]
  apply scanLoop_isSome con (List.Subset.refl con)
  have hcount : idsFrom 1 con ≤ con.length := List.countP_le_length
  have hmul := Nat.mul_le_mul_right con.length hcount
  have hsquare : (con.length + 1) * (con.length + 1) =
      con.length * con.length + con.length + con.length + 1 := by
    rw [Nat.add_mul, Nat.mul_add]
    omega
  omega

/-- What the loop has met: the number it began with is not in the rest of the list, or it
has met all numbers below its result, the later ones behind the first connection, where
the result is not. -/
theorem scanLoop_spec {con rest : List ℤ} {fuel : ℕ} {num n : ℤ}
    (h : scanLoop con fuel rest num = some n) :
    (n = num ∧ num ∉ rest) ∨
      (num < n ∧ num ∈ rest ∧ n ∉ con.tail ∧ ∀ j, num < j → j < n → j ∈ con.tail) := by
  induction fuel generalizing rest num with
  | zero =>
    cases rest with
    | nil => exact .inl ⟨(Option.some.inj h).symm, List.not_mem_nil⟩
    | cons tmp rest => exact absurd h nofun
  | succ fuel ih =>
    cases rest with
    | nil => exact .inl ⟨(Option.some.inj h).symm, List.not_mem_nil⟩
    | cons tmp rest =>
      rw [scanLoop] at h
      split at h
      · next heq =>
        subst heq
        right
        -- the next number is free, or the search has gone on from it
        rcases ih h with ⟨rfl, hnot⟩ | ⟨hlt, hmem, hnot, hall⟩
        · exact ⟨by omega, List.mem_cons_self, hnot, fun j h1 h2 => by omega⟩
        · refine ⟨by omega, List.mem_cons_self, hnot, fun j h1 h2 => ?_⟩
          rcases Int.lt_or_eq_of_le (show tmp + 1 ≤ j by omega) with hj | rfl
          · exact hall j hj h2
          · exact hmem
      · next hne =>
        rcases ih h with ⟨rfl, hnot⟩ | ⟨hlt, hmem, hrest⟩
        · exact .inl ⟨rfl, by simp [Ne.symm hne, hnot]⟩
        · exact .inr ⟨hlt, List.mem_cons_of_mem _ hmem, hrest⟩

/-- The first connection has an id above 1 and all smaller ids are in use behind it. -/
def Shadowed : List ℤ → Prop
  | [] => False
  | k :: con => 1 < k ∧ ∀ j, 1 ≤ j → j < k → j ∈ con

/-- **The id that is found is in use** exactly when it is the id of the first connection,
which the search skips. -/
theorem mem_freshNum_iff {con : List ℤ} (hcon : con.Nodup) {n : ℤ} (h : freshNum con = some n) :
    n ∈ con ↔ Shadowed con := by
  cases con with
  | nil => simp [Shadowed]
  | cons k con =>
    rw [List.nodup_cons] at hcon
    rcases scanLoop_spec h with ⟨rfl, hnot⟩ | ⟨hlt, hmem, hnot, hall⟩
    · refine iff_of_false hnot fun hs => hnot (List.mem_cons_of_mem _ (hs.2 1 le_rfl hs.1))
    · rw [List.tail_cons] at hnot hall
      constructor
      · intro hn
        obtain rfl := (List.mem_cons.mp hn).resolve_right hnot
        refine ⟨hlt, fun j h1 hj => ?_⟩
        rcases Int.lt_or_eq_of_le h1 with h1 | rfl
        · exact hall j h1 hj
        · exact (List.mem_cons.mp hmem).resolve_left (by omega)
      · rintro ⟨hk, hbelow⟩
        -- the search passes neither below nor above the first id
        rcases lt_trichotomy n k with hnk | rfl | hnk
        · exact absurd (hbelow n (by omega) hnk) hnot
        · exact List.mem_cons_self
        · exact absurd (hall k hk hnk) hcon.1

theorem one_le_freshNum {con : List ℤ} {n : ℤ} (h : freshNum con = some n) : 1 ≤ n := by
  rcases scanLoop_spec h with ⟨rfl, -⟩ | ⟨hlt, -⟩ <;> omega

instance decidableShadowed (con : List ℤ) : Decidable (Shadowed con) :=
  match con with
  | [] => .isFalse id
  | k :: con =>
    decidable_of_iff (1 < k ∧ ∀ j ∈ List.range k.toNat, 1 ≤ j → (j : ℤ) ∈ con) <| by
      simp only [Shadowed, List.mem_range]
      refine and_congr_right fun hk => ⟨fun h j h1 hj => ?_, fun h j hj h1 => ?_⟩
      · have hmem := h j.toNat (by omega) (by omega)
        rwa [Int.toNat_of_nonneg (by omega)] at hmem
      · exact h j (by omega) (by omega)

/-! ## The list of connections -/

/-- `connection_struct`; `conn` stands for what was opened. -/
structure Connection where
  num : ℤ
  conn : ℕ
  deriving DecidableEq, Repr

/-- The ids of the open connections. -/
def nums (con : List Connection) : List ℤ := con.map Connection.num

/-- How the functions with an id find their connection: the first one with the id. -/
def connectionOf (con : List Connection) (num : ℤ) : Option Connection :=
  Keyed.look Connection.num con num

/-- The loop of `db_close`: the first connection with the id goes. -/
def closeLoop (num : ℤ) : List Connection → List Connection
  | [] => []
  | ctmp :: con => if ctmp.num = num then con else ctmp :: closeLoop num con

/-- The answers: an id, or whether something was closed. -/
inductive DbAnswer
  | id (num : ℤ)
  | closed (res : Bool)
  deriving DecidableEq, Repr

/-- Why a call does not come back. -/
inductive NoReturn
  /-- The loop of `db_open` goes on for ever. -/
  | loop
  /-- The mutex of the driver has not been unlocked. -/
  | locked
  deriving DecidableEq, Repr

/-! ### The pgsql driver -/

inductive PgCall
  /-- What is opened; whether the server is there, and whether it takes the date style. -/
  | dbOpen (conn : ℕ) (good dateStyle : Bool)
  | dbClose (num : ℤ)
  deriving DecidableEq, Repr

def pgsqlOpen (conn : ℕ) (good dateStyle : Bool) (con : List Connection) :
    Except NoReturn (List Connection × DbAnswer) :=
  match freshNum (nums con) with
  | none => .error .loop
  | some num =>
    if !good then .ok (con, .id 0)
    else if !dateStyle then .ok (con, .id 0)
    else .ok (con ++ [⟨num, conn⟩], .id num)

def pgsqlClose (num : ℤ) (con : List Connection) : List Connection × DbAnswer :=
  (closeLoop num con, .closed (connectionOf con num).isSome)

def pgsql : Machine (List Connection) PgCall DbAnswer NoReturn where
  init := []
  step con
    | .dbOpen conn good dateStyle => pgsqlOpen conn good dateStyle con
    | .dbClose num => .ok (pgsqlClose num con)

/-! ### The xml driver -/

/-- The variables of the xml driver. -/
structure XmlDb where
  con : List Connection
  isOpen : Bool
  locked : Bool
  deriving DecidableEq, Repr

inductive XmlCall
  | dbOpen (conn : ℕ)
  /-- With the id, whether the last action on the connection was a SELECT. -/
  | dbClose (num : ℤ) (select : Bool)
  deriving DecidableEq, Repr

/-- The file is read by the first call only; a file that is not there reads as empty. -/
def xmlOpen (conn : ℕ) (s : XmlDb) : Except NoReturn (XmlDb × DbAnswer) :=
  match freshNum (nums s.con) with
  | none => .error .loop
  | some num => .ok ({ s with con := s.con ++ [⟨num, conn⟩], isOpen := true }, .id num)

/-- Before the first open the function returns with the mutex locked.  The answer is also
true when the last connection is closed and the file is written, even if the id was not
found. -/
def xmlClose (num : ℤ) (select : Bool) (s : XmlDb) : XmlDb × DbAnswer :=
  if !s.isOpen then ({ s with locked := true }, .closed false)
  else
    let res := (connectionOf s.con num).isSome
    let con := closeLoop num s.con
    ({ s with con := con }, .closed (res || (con.isEmpty && !(res && select))))

def xmlDb : Machine XmlDb XmlCall DbAnswer NoReturn where
  init := ⟨[], false, false⟩
  step s c :=
    if s.locked then .error .locked
    else
      match c with
      | .dbOpen conn => xmlOpen conn s
      | .dbClose num select => .ok (xmlClose num select s)

/-! ## Unique ids -/

/-- The ids of the open connections tell them apart: they are distinct and not zero, and a
call with the id of a connection reaches this connection. -/
structure UniqueIds (con : List Connection) : Prop where
  distinct : (nums con).Nodup
  nonzero : ∀ x ∈ con, x.num ≠ 0
  reached : ∀ x ∈ con, connectionOf con x.num = some x

theorem uniqueIds_iff {con : List Connection} :
    UniqueIds con ↔ (nums con).Nodup ∧ ∀ x ∈ con, x.num ≠ 0 := by
  constructor
  · exact fun h => ⟨h.distinct, h.nonzero⟩
  · rintro ⟨hd, h0⟩
    refine ⟨hd, h0, fun x hx => ?_⟩
    have hdistinct : Keyed.Distinct Connection.num con := hd
    exact hdistinct.look_eq_some_iff.mpr ⟨hx, rfl⟩

theorem uniqueIds_nil : UniqueIds [] := by
  rw [uniqueIds_iff]
  exact ⟨List.nodup_nil, by simp⟩

/-- **A new connection** leaves the ids unique exactly when the search does not skip its
id. -/
theorem uniqueIds_push {con : List Connection} (h : UniqueIds con) {num : ℤ}
    (hnum : freshNum (nums con) = some num) (conn : ℕ) :
    UniqueIds (con ++ [⟨num, conn⟩]) ↔ ¬ Shadowed (nums con) := by
  have hone := one_le_freshNum hnum
  rw [← mem_freshNum_iff h.distinct hnum, uniqueIds_iff, nums, List.map_append, ← nums,
    List.nodup_append']
  constructor
  · rintro ⟨⟨-, -, hdisj⟩, -⟩ hmem
    exact hdisj hmem (List.mem_singleton_self num)
  · intro hmem
    refine ⟨⟨h.distinct, List.nodup_singleton _, ?_⟩, ?_⟩
    · intro k hk hk'
      obtain rfl : k = num := List.mem_singleton.mp hk'
      exact hmem hk
    · intro x hx
      rcases List.mem_append.mp hx with hx | hx
      · exact h.nonzero x hx
      · rw [List.mem_singleton.mp hx]
        simp only
        omega

theorem closeLoop_sublist (num : ℤ) (con : List Connection) : (closeLoop num con).Sublist con := by
  induction con with
  | nil => exact .slnil
  | cons ctmp con ih =>
    rw [closeLoop]
    split
    · exact List.sublist_cons_self ..
    · exact ih.cons_cons ctmp

theorem UniqueIds.close {con : List Connection} (h : UniqueIds con) (num : ℤ) :
    UniqueIds (closeLoop num con) := by
  have hsub := closeLoop_sublist num con
  rw [uniqueIds_iff]
  exact ⟨h.distinct.sublist (hsub.map _), fun x hx => h.nonzero x (hsub.subset hx)⟩

/-! ## The runs with unique ids -/

/-- A connection is made only when the search does not skip its id. -/
def pgsqlOk (con : List Connection) : PgCall → Prop
  | .dbOpen _ good dateStyle => good = true → dateStyle = true → ¬ Shadowed (nums con)
  | .dbClose _ => True

def xmlOk (s : XmlDb) : XmlCall → Prop
  | .dbOpen _ => ¬ Shadowed (nums s.con)
  | .dbClose _ _ => True

theorem pgsql_step_iff {con con' : List Connection} {c : PgCall} {e : DbAnswer}
    (h : UniqueIds con) (hs : pgsql.step con c = .ok (con', e)) :
    UniqueIds con' ↔ pgsqlOk con c := by
  cases c with
  | dbOpen conn good dateStyle =>
    obtain ⟨num, hnum⟩ := freshNum_isSome (nums con)
    simp only [pgsql, pgsqlOpen, hnum] at hs
    rw [pgsqlOk]
    cases good with
    | false =>
      obtain ⟨rfl, rfl⟩ := Prod.mk.inj (Except.ok.inj hs)
      exact iff_of_true h nofun
    | true =>
      cases dateStyle with
      | false =>
        obtain ⟨rfl, rfl⟩ := Prod.mk.inj (Except.ok.inj hs)
        exact iff_of_true h nofun
      | true =>
        obtain ⟨rfl, rfl⟩ := Prod.mk.inj (Except.ok.inj hs)
        rw [uniqueIds_push h hnum]
        simp
  | dbClose num =>
    obtain ⟨rfl, rfl⟩ := Prod.mk.inj (Except.ok.inj hs)
    exact iff_of_true (h.close num) trivial

theorem xml_step_iff {s s' : XmlDb} {c : XmlCall} {e : DbAnswer} (h : UniqueIds s.con)
    (hs : xmlDb.step s c = .ok (s', e)) : UniqueIds s'.con ↔ xmlOk s c := by
  rw [xmlDb] at hs
  simp only at hs
  split at hs
  · contradiction
  · cases c with
    | dbOpen conn =>
      obtain ⟨num, hnum⟩ := freshNum_isSome (nums s.con)
      simp only [xmlOpen, hnum] at hs
      obtain ⟨rfl, rfl⟩ := Prod.mk.inj (Except.ok.inj hs)
      exact uniqueIds_push h hnum conn
    | dbClose num select =>
      simp only [xmlClose] at hs
      split at hs
      · obtain ⟨rfl, rfl⟩ := Prod.mk.inj (Except.ok.inj hs)
        exact iff_of_true h trivial
      · obtain ⟨rfl, rfl⟩ := Prod.mk.inj (Except.ok.inj hs)
        exact iff_of_true (h.close num) trivial

/-- **The ids stay unique** on exactly the runs in which no connection is made while the
first connection has an id above 1 and all smaller ids are in use. -/
theorem ids_unique_iff {h : List (PgCall × DbAnswer)} {con : List Connection}
    (hr : pgsql.Reaches h con) {h' : List (XmlCall × DbAnswer)} {s : XmlDb}
    (hr' : xmlDb.Reaches h' s) :
    (pgsql.Always (fun _ con => UniqueIds con) h ↔
      pgsql.EveryStep (fun _ con c => pgsqlOk con c) h) ∧
    (xmlDb.Always (fun _ s => UniqueIds s.con) h' ↔
      xmlDb.EveryStep (fun _ s c => xmlOk s c) h') := by
  constructor
  · apply hr.always_iff_everyStep uniqueIds_nil
    exact fun _ _ _ _ _ _ hunique hs => pgsql_step_iff hunique hs
  · apply hr'.always_iff_everyStep uniqueIds_nil
    exact fun _ _ _ _ _ _ hunique hs => xml_step_iff hunique hs

instance (con : List Connection) (c : PgCall) : Decidable (pgsqlOk con c) :=
  match c with
  | .dbOpen _ good dateStyle =>
    inferInstanceAs (Decidable (good = true → dateStyle = true → ¬ Shadowed (nums con)))
  | .dbClose _ => .isTrue trivial

instance (s : XmlDb) (c : XmlCall) : Decidable (xmlOk s c) :=
  match c with
  | .dbOpen _ => inferInstanceAs (Decidable (¬ Shadowed (nums s.con)))
  | .dbClose _ _ => .isTrue trivial

/-- Two connections, and a third one after the second is closed. -/
theorem ids_unique_three :
    pgsql.Always (fun _ con => UniqueIds con)
        (pgsql.history [.dbOpen 1 true true, .dbOpen 2 true true, .dbClose 2,
          .dbOpen 3 true true]) ∧
      xmlDb.Always (fun _ s => UniqueIds s.con)
        (xmlDb.history [.dbOpen 1, .dbOpen 2, .dbClose 2 true, .dbOpen 3]) := by
  have hiff := ids_unique_iff
    (pgsql.reaches_history [.dbOpen 1 true true, .dbOpen 2 true true, .dbClose 2,
      .dbOpen 3 true true])
    (xmlDb.reaches_history [.dbOpen 1, .dbOpen 2, .dbClose 2 true, .dbOpen 3])
  constructor
  · apply hiff.1.mpr
    exact Machine.everyStep_history (by decide +kernel)
  · apply hiff.2.mpr
    exact Machine.everyStep_history (by decide +kernel)

/-- With the first of two connections closed and another one made, the list is 2, 1; the
next one gets the id 2 again. -/
theorem ids_not_unique :
    ¬ (∀ h con, pgsql.Reaches h con → pgsql.Always (fun _ con => UniqueIds con) h) ∧
      ¬ (∀ h s, xmlDb.Reaches h s → xmlDb.Always (fun _ s => UniqueIds s.con) h) := by
  constructor
  · intro hall
    have hr := pgsql.reaches_history [.dbOpen 1 true true, .dbOpen 2 true true, .dbClose 1,
      .dbOpen 3 true true, .dbOpen 4 true true]
    have hunique := hall _ _ hr _ [] _ (List.append_nil _).symm hr
    exact absurd hunique.distinct (by decide +kernel)
  · intro hall
    have hr := xmlDb.reaches_history [.dbOpen 1, .dbOpen 2, .dbClose 1 true, .dbOpen 3, .dbOpen 4]
    have hunique := hall _ _ hr _ [] _ (List.append_nil _).symm hr
    exact absurd hunique.distinct (by decide +kernel)

end Tacppd
