/-
# The billing store

`CoreBilling.cc`: the list `ud_` of the records of the users who are tracked, each with
the counter `numptr_`.  `addUd` and `delUd` are called by the constructors, the
assignment and the destructor of the tracked entries, so the counter is a reference
count kept by hand; it starts at 0.

What the three operations do is said once, by what is found for each user name
(`find_addUd`, `find_delUd`).
-/
import Mathlib.Data.List.Nodup
import Tacppd.Database

namespace Tacppd

/-- A record with the name it goes by; together they are the class `db_user`. -/
structure UserRecord where
  username : Bytes
  data : DbUser
  deriving DecidableEq, Repr

/-- A new `db_user`. -/
def UserRecord.new : UserRecord where
  username := []
  data := ⟨[], [], [], 0, 0, 0, [], [], [], false⟩

/-- An element of the store, class `user_data`. -/
structure UserData where
  ddata : UserRecord
  numptr : ℕ
  deriving DecidableEq, Repr

/-- The name an element is searched by. -/
def UserData.username (x : UserData) : Bytes := x.ddata.username

/-! ## The operations on the list -/

/-- The loop of `addUd`: count up the first element with this name, or push a new one. -/
def addUdLoop (d : UserRecord) : List UserData → List UserData
  | [] => [⟨d, 0⟩]
  | x :: rest =>
    if x.username = d.username then { x with numptr := x.numptr + 1 } :: rest
    else x :: addUdLoop d rest

/-- What `delUd` does to one element with the name: it is erased when the counter is not
above 1. -/
def UserData.release (x : UserData) : Option UserData :=
  if x.numptr ≤ 1 then none else some { x with numptr := x.numptr - 1 }

/-- The loop of `delUd`. -/
def delUdLoop (u : Bytes) (ud : List UserData) : List UserData :=
  ud.filterMap fun x => if x.username = u then x.release else some x

/-- The search that all three operations make. -/
def findUd (ud : List UserData) (u : Bytes) : Option UserData :=
  ud.find? fun x => decide (x.username = u)

theorem findUd_cons_self {x : UserData} {u : Bytes} (h : x.username = u) (ud : List UserData) :
    findUd (x :: ud) u = some x := by
  rw [findUd, List.find?_cons, decide_eq_true h]

theorem findUd_cons_of_ne {x : UserData} {u : Bytes} (h : x.username ≠ u) (ud : List UserData) :
    findUd (x :: ud) u = findUd ud u := by
  rw [findUd, List.find?_cons, decide_eq_false h]
  rfl

theorem findUd_eq_none {ud : List UserData} {u : Bytes} :
    findUd ud u = none ↔ u ∉ ud.map UserData.username := by
  simp [findUd]

theorem findUd_username {ud : List UserData} {u : Bytes} {x : UserData}
    (h : findUd ud u = some x) : x.username = u := by
  simpa using List.find?_some h

/-- The names after `addUd`. -/
theorem map_username_addUdLoop (d : UserRecord) (ud : List UserData) :
    (addUdLoop d ud).map UserData.username =
      if d.username ∈ ud.map UserData.username then ud.map UserData.username
      else ud.map UserData.username ++ [d.username] := by
  induction ud with
  | nil => rfl
  | cons x ud ih =>
    rw [addUdLoop]
    by_cases hx : x.username = d.username
    · rw [if_pos hx, List.map_cons, List.map_cons, if_pos (by simp [hx])]
      rfl
    · rw [if_neg hx, List.map_cons, List.map_cons, ih]
      by_cases hmem : d.username ∈ ud.map UserData.username
      · rw [if_pos hmem, if_pos (List.mem_cons_of_mem _ hmem)]
      · rw [if_neg hmem, if_neg (by simpa [Ne.symm hx] using hmem)]
        rfl

theorem findUd_addUdLoop (d : UserRecord) (ud : List UserData) (u : Bytes) :
    findUd (addUdLoop d ud) u =
      if u = d.username then
        some (match findUd ud u with
          | some x => { x with numptr := x.numptr + 1 }
          | none => ⟨d, 0⟩)
      else findUd ud u := by
  induction ud with
  | nil =>
    by_cases hu : u = d.username
    · subst hu
      rw [if_pos rfl]
      exact findUd_cons_self (x := ⟨d, 0⟩) rfl []
    · rw [if_neg hu]
      exact findUd_cons_of_ne (x := ⟨d, 0⟩) (Ne.symm hu) []
  | cons x ud ih =>
    rw [addUdLoop]
    by_cases hx : x.username = d.username
    · rw [if_pos hx]
      by_cases hu : u = d.username
      · rw [if_pos hu, findUd_cons_self (hx.trans hu.symm)]
        exact findUd_cons_self (x := { x with numptr := x.numptr + 1 }) (hx.trans hu.symm) ud
      · have hne : x.username ≠ u := fun h => hu (h.symm.trans hx)
        rw [if_neg hu, findUd_cons_of_ne hne]
        exact findUd_cons_of_ne (x := { x with numptr := x.numptr + 1 }) hne ud
    · rw [if_neg hx]
      by_cases hxu : x.username = u
      · have hu : u ≠ d.username := fun h => hx (hxu.trans h)
        rw [if_neg hu, findUd_cons_self hxu, findUd_cons_self hxu]
      · rw [findUd_cons_of_ne hxu, findUd_cons_of_ne hxu, ih]

/-- An element that `delUd` keeps has kept its name. -/
theorem UserData.release_username {x y : UserData} (h : x.release = some y) :
    y.username = x.username := by
  unfold UserData.release at h
  split at h
  · contradiction
  · obtain rfl := Option.some.inj h
    rfl

/-- `delUd` removes names and changes none. -/
theorem map_username_delUdLoop (u : Bytes) (ud : List UserData) :
    ((delUdLoop u ud).map UserData.username).Sublist (ud.map UserData.username) := by
  induction ud with
  | nil => exact List.Sublist.slnil
  | cons x ud ih =>
    rw [delUdLoop, List.filterMap_cons]
    split
    · exact ih.trans (List.sublist_cons_self _ _)
    · next y hy =>
      have hname : y.username = x.username := by
        split at hy
        · exact UserData.release_username hy
        · obtain rfl := Option.some.inj hy
          rfl
      rw [List.map_cons, List.map_cons, hname]
      exact ih.cons_cons _

/-- Where no name is there twice, the released element was the only one. -/
theorem findUd_delUdLoop {ud : List UserData} (hnodup : (ud.map UserData.username).Nodup)
    (u v : Bytes) :
    findUd (delUdLoop u ud) v = if v = u then (findUd ud u).bind UserData.release
      else findUd ud v := by
  induction ud with
  | nil => by_cases hv : v = u <;> simp [delUdLoop, findUd, hv]
  | cons x ud ih =>
    rw [List.map_cons, List.nodup_cons] at hnodup
    obtain ⟨hx, hnodup⟩ := hnodup
    have ih := ih hnodup
    rw [delUdLoop, List.filterMap_cons]
    by_cases hxu : x.username = u
    · -- the element of this name; behind it there is no other one
      rw [if_pos hxu, findUd_cons_self hxu, Option.bind_some]
      have hrest : findUd ud u = none := findUd_eq_none.mpr (hxu ▸ hx)
      have hout : ∀ y, x.release = some y → y.username = u := fun y hy =>
        (UserData.release_username hy).trans hxu
      by_cases hv : v = u
      · subst hv
        rw [if_pos rfl]
        rw [if_pos rfl, hrest, Option.bind_none] at ih
        cases hrel : x.release with
        | none => exact ih
        | some y => exact findUd_cons_self (hout y hrel) _
      · have hne : x.username ≠ v := fun h => hv (h.symm.trans hxu)
        rw [if_neg hv, findUd_cons_of_ne hne]
        rw [if_neg hv] at ih
        cases hrel : x.release with
        | none => exact ih
        | some y =>
          have hyv : y.username ≠ v := fun h => hv (h.symm.trans (hout y hrel))
          exact (findUd_cons_of_ne hyv _).trans ih
    · rw [if_neg hxu, findUd_cons_of_ne hxu]
      show findUd (x :: delUdLoop u ud) v = _
      by_cases hxv : x.username = v
      · have hv : v ≠ u := fun h => hxu (hxv.trans h)
        rw [if_neg hv, findUd_cons_self hxv, findUd_cons_self hxv]
      · rw [findUd_cons_of_ne hxv, findUd_cons_of_ne hxv, ih]

/-! ## The store -/

/-- The part of class `CoreBilling` with the users: no name is stored twice. -/
structure CoreBilling where
  ud : List UserData
  nodup : (ud.map UserData.username).Nodup

namespace CoreBilling

def empty : CoreBilling := ⟨[], List.nodup_nil⟩

/-- The element found for a name. -/
def find (b : CoreBilling) (u : Bytes) : Option UserData := findUd b.ud u

/-- `getUd`: the record of a user, a new `db_user` when there is none. -/
def getUd (b : CoreBilling) (u : Bytes) : UserRecord :=
  ((b.find u).map UserData.ddata).getD UserRecord.new

def addUd (b : CoreBilling) (d : UserRecord) : CoreBilling where
  ud := addUdLoop d b.ud
  nodup := by
    rw [map_username_addUdLoop]
    split
    · exact b.nodup
    · next hnew =>
      rw [List.nodup_append]
      refine ⟨b.nodup, List.nodup_singleton _, ?_⟩
      rintro u hu _ hd rfl
      exact hnew (List.mem_singleton.mp hd ▸ hu)

def delUd (b : CoreBilling) (u : Bytes) : CoreBilling where
  ud := delUdLoop u b.ud
  nodup := b.nodup.sublist (map_username_delUdLoop u b.ud)

variable (b : CoreBilling)

@[simp] theorem find_empty (u : Bytes) : empty.find u = none := rfl

theorem find_username {u : Bytes} {x : UserData} (h : b.find u = some x) : x.username = u :=
  findUd_username h

/-- **What `addUd` does**: the counter of the name goes up, or it starts at 0. -/
theorem find_addUd (d : UserRecord) (u : Bytes) :
    (b.addUd d).find u =
      if u = d.username then
        some (match b.find u with
          | some x => { x with numptr := x.numptr + 1 }
          | none => ⟨d, 0⟩)
      else b.find u :=
  findUd_addUdLoop d b.ud u

/-- **What `delUd` does**: the counter of the name goes down, or the element is erased. -/
theorem find_delUd (u v : Bytes) :
    (b.delUd u).find v = if v = u then (b.find u).bind UserData.release else b.find v :=
  findUd_delUdLoop b.nodup u v

/-- The record found goes by the name it was searched by, or it is a new one. -/
theorem getUd_username (u : Bytes) :
    (b.getUd u).username = if (b.find u).isSome then u else [] := by
  unfold getUd
  cases h : b.find u with
  | none => rfl
  | some x => exact b.find_username h

/-- A record is there already, or it is the new one. -/
theorem getUd_addUd (d : UserRecord) (u : Bytes) :
    (b.addUd d).getUd u =
      if (b.find u).isSome = false ∧ u = d.username then d else b.getUd u := by
  unfold getUd
  rw [b.find_addUd]
  cases h : b.find u with
  | none =>
    by_cases hu : u = d.username
    · rw [if_pos hu, if_pos ⟨rfl, hu⟩]
      rfl
    · rw [if_neg hu, if_neg (fun h => hu h.2)]
  | some x =>
    have hno : ¬ ((some x).isSome = false ∧ u = d.username) := by simp
    rw [if_neg hno]
    by_cases hu : u = d.username
    · rw [if_pos hu]
      rfl
    · rw [if_neg hu]

/-- `delUd` changes no record; it can be gone afterwards. -/
theorem getUd_delUd (v u : Bytes) :
    (b.delUd v).getUd u = b.getUd u ∨ (b.delUd v).getUd u = UserRecord.new := by
  unfold getUd
  rw [b.find_delUd]
  by_cases hu : u = v
  · subst hu
    rw [if_pos rfl]
    cases h : b.find u with
    | none => exact .inl rfl
    | some x =>
      rw [Option.bind_some, UserData.release]
      split
      · exact .inr rfl
      · exact .inl rfl
  · rw [if_neg hu]
    exact .inl rfl

/-- A user whose record is found has one that counts. -/
theorem find_isSome_of_result {u : Bytes} (h : (b.getUd u).data.result = true) :
    (b.find u).isSome = true := by
  unfold getUd at h
  cases hfind : b.find u with
  | none =>
    rw [hfind] at h
    contradiction
  | some x => rfl

end CoreBilling

end Tacppd
