/-
# Paths with `.` and `..`

A general development: a path is a text that a separator cuts into segments, and a directory is
the list of its names from the root on.  An empty segment and a dot stay where they are, two dots
go up, where the root is its own parent, and every other segment goes down.

What a list of segments makes of a directory is its `Route`: how often it goes up from where it
begins, and the names that it goes down then (`walk_eq`).  So a walk stays under its directory if
and only if it comes back by the names that it left (`prefix_walk_iff`).
-/
import Mathlib.Data.List.Basic

namespace Paths

variable {α : Type*} [DecidableEq α] (sep dot : α)

/-- One segment. -/
def step (dir : List (List α)) (seg : List α) : List (List α) :=
  if seg = [] ∨ seg = [dot] then dir
  else if seg = [dot, dot] then dir.dropLast
  else dir ++ [seg]

def walk (dir segs : List (List α)) : List (List α) := segs.foldl (step dot) dir

/-- The directory or file that a path leads to. -/
def resolve (cwd : List (List α)) (path : List α) : List (List α) :=
  walk dot (if path.head? = some sep then [] else cwd) (path.splitOn sep)

/-- How many directories are left, and the names behind that. -/
structure Route (α : Type*) where
  up : ℕ
  down : List (List α)

/-- A route with one segment more. -/
def Route.step (r : Route α) (seg : List α) : Route α :=
  if seg = [] ∨ seg = [dot] then r
  else if seg = [dot, dot] then
    if r.down = [] then ⟨r.up + 1, []⟩ else ⟨r.up, r.down.dropLast⟩
  else ⟨r.up, r.down ++ [seg]⟩

def route (segs : List (List α)) : Route α := segs.foldl (Route.step dot) ⟨0, []⟩

/-- Where a route ends that begins in a directory. -/
def Route.apply (r : Route α) (dir : List (List α)) : List (List α) :=
  dir.take (dir.length - r.up) ++ r.down

/-- The text is a name: it is no dot, and not two of them. -/
structure Name (seg : List α) : Prop where
  ne : seg ≠ []
  ne_dot : seg ≠ [dot]
  ne_dots : seg ≠ [dot, dot]

variable {sep dot} {dir cwd segs : List (List α)} {front name path : List α}

omit [DecidableEq α] in
/-- A text that begins with another letter than the dot is a name. -/
theorem Name.of_head {c : α} (h : path.head? = some c) (hc : c ≠ dot) : Name dot path := by
  constructor
  · rintro rfl
    exact nomatch h
  · rintro rfl
    exact hc (Option.some.inj h).symm
  · rintro rfl
    exact hc (Option.some.inj h).symm

theorem step_name (h : Name dot name) (dir : List (List α)) :
    step dot dir name = dir ++ [name] := by
  rw [step, if_neg (not_or.mpr ⟨h.ne, h.ne_dot⟩), if_neg h.ne_dots]

theorem walk_append (dir xs ys : List (List α)) :
    walk dot dir (xs ++ ys) = walk dot (walk dot dir xs) ys := List.foldl_append

/-! ## Routes -/

theorem step_apply (r : Route α) (dir : List (List α)) (seg : List α) :
    step dot (r.apply dir) seg = (r.step dot seg).apply dir := by
  unfold step Route.step
  split
  · rfl
  · split
    · split
      · next hdown =>
        simp only [Route.apply, hdown, List.append_nil]
        rw [List.dropLast_eq_take, List.take_take, List.length_take]
        congr 1
        omega
      · next hdown =>
        simp only [Route.apply]
        exact List.dropLast_append_of_ne_nil hdown
    · simp only [Route.apply, List.append_assoc]

theorem walk_apply (r : Route α) (dir segs : List (List α)) :
    walk dot (r.apply dir) segs = (segs.foldl (Route.step dot) r).apply dir := by
  induction segs generalizing r with
  | nil => rfl
  | cons seg segs ih =>
    rw [walk, List.foldl_cons, step_apply, List.foldl_cons]
    exact ih _

/-- **Where a walk ends.** -/
theorem walk_eq (dir segs : List (List α)) :
    walk dot dir segs = (route dot segs).apply dir := by
  have hstart : (⟨0, []⟩ : Route α).apply dir = dir := by simp [Route.apply]
  have hwalk := @walk_apply α _ dot ⟨0, []⟩ dir segs
  rw [hstart] at hwalk
  exact hwalk

/-- Without two dots nothing is left. -/
theorem route_up_of_not_mem (h : [dot, dot] ∉ segs) : (route dot segs).up = 0 := by
  have hkeep : ∀ r : Route α, (segs.foldl (Route.step dot) r).up = r.up := by
    induction segs with
    | nil => exact fun r => rfl
    | cons seg segs ih =>
      rw [List.mem_cons, not_or] at h
      intro r
      rw [List.foldl_cons, ih h.2, Route.step]
      split
      · rfl
      · rw [if_neg (Ne.symm h.1)]
  exact hkeep ⟨0, []⟩

omit [DecidableEq α] in
/-- A route comes back to its directory by the names that it left. -/
theorem prefix_apply_iff (r : Route α) (dir : List (List α)) :
    dir <+: r.apply dir ↔ dir.drop (dir.length - r.up) <+: r.down := by
  rw [Route.apply]
  nth_rewrite 1 [← List.take_append_drop (dir.length - r.up) dir]
  exact List.prefix_append_right_inj _

/-- **A walk stays under its directory.** -/
theorem prefix_walk_iff (dir segs : List (List α)) : dir <+: walk dot dir segs ↔
    dir.drop (dir.length - (route dot segs).up) <+: (route dot segs).down := by
  rw [walk_eq, prefix_apply_iff]

omit [DecidableEq α] in
/-- From a neighbour of its directory a route comes there only over the parent. -/
theorem prefix_apply_neighbour_iff (r : Route α) {parent : List (List α)} {here there : List α}
    (hne : here ≠ there) : parent ++ [here] <+: r.apply (parent ++ [there]) ↔
      r.up ≠ 0 ∧ (parent ++ [here]).drop ((parent ++ [here]).length - r.up) <+: r.down := by
  obtain ⟨up, down⟩ := r
  cases up with
  | zero =>
    have hstart : (⟨0, down⟩ : Route α).apply (parent ++ [there]) = parent ++ there :: down := by
      simp only [Route.apply, Nat.sub_zero, List.take_length, List.append_assoc,
        List.singleton_append]
    rw [hstart]
    refine iff_of_false ?_ fun h => h.1 rfl
    intro hpre
    have htail := (List.prefix_append_right_inj parent).mp hpre
    exact hne (List.cons_prefix_cons.mp htail).1
  | succ up =>
    -- the last name is left behind, so it does not matter which it was
    have hsame : (⟨up + 1, down⟩ : Route α).apply (parent ++ [there]) =
        (⟨up + 1, down⟩ : Route α).apply (parent ++ [here]) := by
      simp only [Route.apply, List.length_append, List.length_singleton, Nat.add_sub_add_right]
      rw [List.take_append_of_le_length (by omega), List.take_append_of_le_length (by omega)]
    rw [hsame, prefix_apply_iff, and_iff_right (Nat.succ_ne_zero up)]

/-! ## Paths -/

/-- What is behind a separator is walked from where the front leads to. -/
theorem resolve_append_sep (hfront : front ≠ []) (cwd : List (List α)) (path : List α) :
    resolve sep dot cwd (front ++ sep :: path) =
      walk dot (resolve sep dot cwd front) (path.splitOn sep) := by
  obtain ⟨c, rest, rfl⟩ := List.exists_cons_of_ne_nil hfront
  rw [resolve, resolve, List.splitOn_append_cons_self, walk_append]
  rfl

/-- The directory of a path, which need not be one with a name. -/
def parentOf (sep dot : α) (cwd : List (List α)) (front : List α) : List (List α) :=
  walk dot (if (front ++ [sep]).head? = some sep then [] else cwd) (front.splitOn sep)

/-- **The last name of a path.** -/
theorem resolve_name (hsep : sep ∉ name) (hname : Name dot name) (cwd : List (List α))
    (front : List α) :
    resolve sep dot cwd (front ++ sep :: name) = parentOf sep dot cwd front ++ [name] := by
  have hhead : (front ++ sep :: name).head? = (front ++ [sep]).head? := by
    cases front <;> rfl
  rw [resolve, parentOf, hhead, List.splitOn_append_cons_self, walk_append,
    List.splitOn_eq_singleton hsep]
  exact step_name hname _

end Paths
