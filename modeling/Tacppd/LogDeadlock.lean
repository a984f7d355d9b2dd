/-
# The low priority task and its mutexes

The log system is what is left of the machine of its mutexes when the entry in the hands of
`logwrite` is put back into the list (`logging_of_calls`).  What it calls stuck is a deadlock of
the low priority task with itself (`writeNext_stuck_iff`).

The task comes there with the second message for a file that has not opened, and never goes on;
with the debug file every thread that begins a statement stops too (`stuck_forever`).
-/
import Tacppd.LogCalls

namespace Tacppd

/-! ## The log system without the places of the threads -/

/-- The entry in the hands of `logwrite`. -/
def WritePoint.inHand : WritePoint → Option LogData
  | .debug d | .file d => some d
  | .outside | .loop | .again => none

def LogList.putBack (o : Option LogData) (l : LogList) : LogList :=
  { l with logs := o.toList ++ l.logs }

/-- An entry is put in front of the list from which it was taken. -/
def putBack (n : ℤ) (o : Option LogData) (lists : List LogList) : List LogList :=
  Keyed.alter LogList.num n (LogList.putBack o) lists

/-- The log system between two of its steps: a thread in `is_debug_fc` has not begun its statement
yet, and `logwrite` has not taken the entry that it is about to write. -/
def CallState.log (s : CallState) : LogState :=
  { s.toLogVars with
    lists := putBack s.output_id s.point.inHand s.lists
    log2_level := s.asked.getD s.log2_level
    mutex2 := if s.asked.isSome = true then none else s.owner .statement
    fileLocked := false
    writer := if s.point = .outside then .idle else .running
    locked := fun k => (s.owner (.file k)).isSome }

/-- What is seen of a step. -/
def LogOut.seen (e : LogOut) : List LogOut := if e = .none then [] else [e]

section

variable {s s' : CallState} {a : CallStep} {e : LogOut} {h : List (CallStep × LogOut)}
  {lists : List LogList} {n num : ℤ} {d : LogData} {o : Option LogData}

theorem num_putBack (l : LogList) : (l.putBack o).num = l.num := rfl

theorem putBack_none : putBack n none lists = lists :=
  Keyed.alter_eq_self (f := LogList.putBack none) fun _ => rfl

theorem map_num_putBack : (putBack n o lists).map LogList.num = lists.map LogList.num :=
  Keyed.map_key_alter num_putBack

theorem outAll_putBack : outAll d (putBack n o lists) = putBack n o (outAll d lists) := by
  have hpush : ∀ l : LogList, (l.push d).putBack o = (l.putBack o).push d := by
    intro l
    rw [LogList.push, LogList.push, LogList.putBack, LogList.putBack, List.append_assoc]
  exact (@Keyed.alter_map _ _ _ LogList.num lists n (LogList.putBack o) (LogList.push d)
    (fun _ => rfl) hpush).symm

theorem delOutput_putBack : delOutput num (putBack n o lists) = putBack n o (delOutput num lists) :=
  (Keyed.alter_dropAll num_putBack num).symm

theorem putBack_append {r : List LogList} (hl : getl n lists ≠ none) :
    putBack n o (lists ++ r) = putBack n o lists ++ r := Keyed.alter_append hl _

theorem getl_putBack : getl n (putBack n o lists) = (getl n lists).map (LogList.putBack o) := by
  rw [getl, putBack, Keyed.look_alter num_putBack, if_pos rfl]
  rfl

/-- The entry that is put back is the next one. -/
theorem takeEntry_putBack (v : LogVars) :
    (takeEntry { v with lists := putBack v.output_id (some d) v.lists }).lists = v.lists :=
  (Keyed.alter_alter num_putBack).trans
    (Keyed.alter_eq_self (f := (fun l : LogList => { l with logs := l.logs.tail }) ∘
      LogList.putBack (some d)) fun _ => rfl)

theorem putBack_takeEntry {v : LogVars} {l : LogList} {rest : List LogData}
    (hl : getl v.output_id v.lists = some l) (hlogs : l.logs = d :: rest) :
    putBack v.output_id (some d) (takeEntry v).lists = v.lists := by
  have hsame : (LogList.putBack (some d) ∘ fun l : LogList => { l with logs := l.logs.tail }) l =
      id l := by
    obtain ⟨num, logs⟩ := l
    obtain rfl : logs = d :: rest := hlogs
    rfl
  calc putBack v.output_id (some d) (takeEntry v).lists
    _ = Keyed.alter LogList.num v.output_id
        (LogList.putBack (some d) ∘ fun l => { l with logs := l.logs.tail }) v.lists :=
      Keyed.alter_alter fun _ => rfl
    _ = Keyed.alter LogList.num v.output_id id v.lists := Keyed.alter_congr fun l' hl' => by
      rw [← Option.some.inj (hl.symm.trans hl'), hsame]
    _ = v.lists := Keyed.alter_eq_self fun _ => rfl

theorem outMsg_putBack (strd : Bytes) (v : LogVars) :
    outMsg strd { v with lists := putBack n o v.lists } =
      (putBack n o (outMsg strd v).1, (outMsg strd v).2) := by
  rw [outMsg, outMsg]
  dsimp only
  split
  · rw [outAll_putBack]
  · rfl

theorem termAdd_putBack {fh : ℕ} {v v' : LogVars} (hadd : termAdd fh v = .ok (v', e))
    (hl : getl v.output_id v.lists ≠ none) (level : ℤ) :
    termAdd fh { v with lists := putBack v.output_id o v.lists, log2_level := level } =
      .ok ({ v' with lists := putBack v.output_id o v'.lists, log2_level := level }, e) := by
  rw [termAdd] at hadd ⊢
  by_cases hfh : ∃ tmp ∈ v.la, tmp.fh = fh
  · rw [if_pos hfh] at hadd
    obtain ⟨rfl, rfl⟩ := Prod.mk.inj (Except.ok.inj hadd)
    exact if_pos hfh
  · rw [if_neg hfh, addOutput] at hadd
    refine (if_neg hfh).trans ?_
    obtain ⟨num, hnum⟩ := freshNum_isSome (v.lists.map LogList.num)
    rw [addOutput, map_num_putBack, hnum]
    rw [hnum] at hadd
    obtain ⟨rfl, rfl⟩ := Prod.mk.inj (Except.ok.inj hadd)
    simp only [Option.map_some, putBack_append hl]

theorem termDel_putBack (fh : ℕ) (v : LogVars) (level : ℤ) :
    termDel fh { v with lists := putBack n o v.lists, log2_level := level } =
      { termDel fh v with lists := putBack n o (termDel fh v).lists, log2_level := level } := by
  rw [termDel, termDel]
  dsimp only
  split
  · rfl
  · rw [delOutput_putBack]

/-! ## Steps and runs -/

/-- The log system can do what is seen of the step, in as many steps as it takes. -/
def Mimics (s s' : CallState) (e : LogOut) : Prop :=
  ∃ bs, s'.log = (logging.playFrom s.log bs).2 ∧
    ((logging.playFrom s.log bs).1.flatMap fun x => x.2.seen) = e.seen

theorem Mimics.none (hs : s'.log = s.log) : Mimics s s' .none := ⟨[], hs, rfl⟩

theorem Mimics.one {b : LogStep} (hs : logging.step s.log b = .ok (s'.log, e)) :
    Mimics s s' e := by
  refine ⟨[b], ?_, ?_⟩
  · rw [Machine.playFrom_cons _ hs]
    rfl
  · rw [Machine.playFrom_cons _ hs]
    exact List.append_nil _

theorem Mimics.two {t : LogState} {b c : LogStep} (hs : logging.step s.log b = .ok (t, .none))
    (hs' : logging.step t c = .ok (s'.log, e)) : Mimics s s' e := by
  refine ⟨[b, c], ?_, ?_⟩
  · rw [Machine.playFrom_cons _ hs, Machine.playFrom_cons _ hs']
    rfl
  · rw [Machine.playFrom_cons _ hs, Machine.playFrom_cons _ hs']
    exact List.append_nil _

/-- The loop of `logwrite` in the log system, with the entry that is the next one. -/
theorem step_writeNext (hpoint : s.point ≠ .outside) {l : LogList} {rest : List LogData}
    (hl : getl s.log.output_id s.log.lists = some l) (hlogs : l.logs = d :: rest) (opens : Bool) :
    logging.step s.log (.writeNext opens) =
      .ok (writeEntry opens d { s.log with toLogVars := takeEntry s.log.toLogVars }) := by
  have hrun : s.log.writer = .running := if_neg hpoint
  show (if s.log.writer = .running then writeNext opens s.log else .error ()) = _
  rw [if_pos hrun, writeNext, hl]
  simp only [hlogs]

/-- The entry in the hands of `logwrite` is the next one of the log system. -/
theorem step_writeNext_inHand (hhand : s.point.inHand = some d)
    (hlog : getl s.log.output_id s.log.lists ≠ none) (opens : Bool) :
    logging.step s.log (.writeNext opens) =
      .ok (writeEntry opens d { s.log with lists := s.lists }) := by
  have hpoint : s.point ≠ .outside := by
    intro hp
    rw [hp] at hhand
    contradiction
  obtain ⟨l, hl⟩ := Option.ne_none_iff_exists'.mp hlog
  have hput : getl s.log.output_id s.log.lists =
      (getl s.output_id s.lists).map (LogList.putBack s.point.inHand) := getl_putBack
  rw [hl] at hput
  obtain ⟨l', -, rfl⟩ := Option.map_eq_some_iff.mp hput.symm
  have htake : (takeEntry s.log.toLogVars).lists = s.lists := by
    have hsame := takeEntry_putBack (d := d) s.toLogVars
    rwa [← hhand] at hsame
  have hnext : (l'.putBack s.point.inHand).logs = d :: l'.logs := by
    rw [hhand]
    rfl
  rw [step_writeNext hpoint hl hnext]
  show Except.ok (writeEntry opens d { s.log with lists := (takeEntry s.log.toLogVars).lists }) = _
  rw [htake]

/-- The end of `logwrite`. -/
theorem mimics_close (hat : s.point = .loop) {l : LogList}
    (hl : getl s.log.output_id s.log.lists = some l) (hlogs : l.logs = []) :
    Mimics s s.close .none := by
  have hrun : s.log.writer = .running := if_neg (by simp [hat])
  have hlocked : s.close.log.locked = fun k => s.log.locked k && !s.log.fd k := by
    funext k
    show (if s.fd k = true then none else s.owner (.file k)).isSome =
      ((s.owner (.file k)).isSome && !s.fd k)
    cases s.fd k with
    | true => simp
    | false => simp
  have hlists : s.close.log.lists = s.log.lists := by
    show putBack _ none _ = putBack _ s.point.inHand _
    rw [hat, WritePoint.inHand]
    rfl
  have hend : s.close.log = writeEnd s.log := by
    rw [writeEnd, ← hlocked, ← hlists]
    rfl
  apply Mimics.one (b := .writeNext true)
  show (if s.log.writer = .running then writeNext true s.log else .error ()) = _
  rw [if_pos hrun, writeNext, hl]
  simp only [hlogs]
  rw [hend]

/-- An entry in hand is not taken yet in the log system. -/
theorem log_inHand (hat : s.point = .loop) {l : LogList} {rest : List LogData}
    (hl : getl s.output_id s.lists = some l) (hlogs : l.logs = d :: rest) {p : WritePoint}
    (hp : p.inHand = some d) (hout : p ≠ .outside) :
    CallState.log { s.take with point := p } = s.log := by
  have hlists : putBack s.output_id p.inHand (takeEntry s.toLogVars).lists = s.log.lists := by
    show _ = putBack _ s.point.inHand _
    rw [hp, putBack_takeEntry hl hlogs, hat, WritePoint.inHand, putBack_none]
  have hwriter : (if p = .outside then Writer.idle else .running) = s.log.writer :=
    (if_neg hout).trans (if_neg (by simp [hat])).symm
  calc CallState.log { s.take with point := p }
    _ = { s.log with
          lists := putBack s.output_id p.inHand (takeEntry s.toLogVars).lists
          writer := if p = .outside then .idle else .running } := rfl
    _ = s.log := by rw [hlists, hwriter]

theorem mimics_getEntry (hat : s.point = .loop) (hs : s.getEntry = .ok (s', e)) :
    Mimics s s' e := by
  have hlists : s.log.lists = s.lists := by
    show putBack _ s.point.inHand _ = _
    rw [hat, WritePoint.inHand, putBack_none]
  have hpoint : s.point ≠ .outside := by simp [hat]
  rw [CallState.getEntry] at hs
  split at hs
  · contradiction
  · next l hl =>
    have hl' : getl s.log.output_id s.log.lists = some l := by
      rw [hlists]
      exact hl
    split at hs
    · next hlogs =>
      obtain ⟨rfl, rfl⟩ := Prod.mk.inj (Except.ok.inj hs)
      exact mimics_close hat hl' hlogs
    · next d rest hlogs =>
      have hstep := step_writeNext hpoint hl' hlogs true
      have hentry := Except.ok.inj hs
      rw [CallState.entry] at hentry
      split at hentry
      · obtain ⟨rfl, rfl⟩ := Prod.mk.inj hentry
        exact .none (log_inHand hat hl hlogs rfl (by simp))
      · next hdebug =>
        split at hentry
        · next hopen =>
          obtain ⟨rfl, rfl⟩ := Prod.mk.inj hentry
          apply Mimics.one (b := .writeNext true)
          rw [hstep, writeEntry, if_neg fun h => hdebug h.1]
          refine congrArg _ ((if_pos hopen).trans (Prod.ext ?_ rfl))
          have htake : (takeEntry s.log.toLogVars).lists = (takeEntry s.toLogVars).lists := by
            show Keyed.alter _ _ _ s.log.lists = _
            rw [hlists]
            rfl
          have hrun : s.log.writer = .running := if_neg hpoint
          show { s.log with lists := (takeEntry s.log.toLogVars).lists } =
            { s.log with
              lists := putBack s.output_id none (takeEntry s.toLogVars).lists, writer := .running }
          rw [htake, putBack_none, ← hrun]
        · obtain ⟨rfl, rfl⟩ := Prod.mk.inj hentry
          exact .none (log_inHand hat hl hlogs rfl (by simp))

/-- The entry is behind the loop, and so are the variables and the mutexes of the files. -/
theorem log_again {d : LogData} (hhand : s.point.inHand = some d) (fd : LogKind → Bool)
    (owner : LogMutex → Option ℕ) (hstatement : owner .statement = s.owner .statement) :
    CallState.log { s with fd := fd, owner := owner, point := .again } =
      { s.log with lists := s.lists, fd := fd, locked := fun k => (owner (.file k)).isSome } := by
  have hrun : s.log.writer = .running := if_neg fun hp => by
    rw [hp] at hhand
    contradiction
  calc CallState.log { s with fd := fd, owner := owner, point := .again }
    _ = { s.log with
          lists := putBack s.output_id none s.lists, fd := fd, writer := .running
          mutex2 := if s.asked.isSome = true then none else owner .statement
          locked := fun k => (owner (.file k)).isSome } := rfl
    _ = { s.log with lists := s.lists, fd := fd, locked := fun k => (owner (.file k)).isSome } := by
      rw [putBack_none, ← hrun, hstatement]
      rfl

theorem mimics_lockDebug (hI : CallInv h s) (hat : s.point = .debug d)
    (hlog : getl s.log.output_id s.log.lists ≠ none) (hs : s.lockDebug d = (s', e)) :
    Mimics s s' e := by
  have hhand : s.point.inHand = some d := by rw [hat, WritePoint.inHand]
  have hk := hI.debug d hat
  have hstep := step_writeNext_inHand hhand hlog true
  have hagain := log_again hhand s.fd s.owner rfl
  rw [CallState.lockDebug] at hs
  split at hs
  · next hlevel =>
    obtain ⟨rfl, rfl⟩ := Prod.mk.inj hs
    apply Mimics.one (b := .writeNext true)
    rw [hstep, writeEntry, hk, if_pos ⟨rfl, hlevel⟩]
    exact congrArg (fun t => Except.ok (t, _)) hagain.symm
  · next hlevel =>
    split at hs
    · next hopen =>
      obtain ⟨rfl, rfl⟩ := Prod.mk.inj hs
      apply Mimics.one (b := .writeNext true)
      rw [hstep, writeEntry, hk, if_neg fun hdrop => hlevel hdrop.2]
      refine (congrArg _ (if_pos hopen)).trans ?_
      exact congrArg (fun t => Except.ok (t, _)) hagain.symm
    · obtain ⟨rfl, rfl⟩ := Prod.mk.inj hs
      have hrun : s.log.writer = .running := if_neg (by simp [hat])
      apply Mimics.none
      show { s.log with lists := putBack s.output_id (some d) s.lists, writer := .running } = s.log
      rw [← hhand, ← hrun]
      rfl

/-- The entry for a file that is not open. -/
theorem step_writeNext_file (hI : CallInv h s) (hat : s.point = .file d)
    (hlog : getl s.log.output_id s.log.lists ≠ none) (opens : Bool) :
    logging.step s.log (.writeNext opens) =
      .ok (if s.log.locked (.ofLevel d.level) = true then
        ({ s.log with
          lists := s.lists, writer := .stuck d
          fileLocked := decide (LogKind.ofLevel d.level = .debug) }, .stuck d)
      else
        ({ s.log with
          lists := s.lists, fd := Function.update s.fd (.ofLevel d.level) opens
          locked := Function.update s.log.locked (.ofLevel d.level) true },
          if opens = true then .wrote (.ofLevel d.level) d else .lost (.ofLevel d.level) d)) := by
  have hhand : s.point.inHand = some d := by rw [hat, WritePoint.inHand]
  have hdrop : ¬ (LogKind.ofLevel d.level = .debug ∧ d.level ∉ s.log.fc) := fun hdrop =>
    hdrop.2 (hI.level d hat hdrop.1)
  have hclosed : ¬ s.log.fd (.ofLevel d.level) = true :=
    Bool.eq_false_iff.mp (hI.closed d hat)
  rw [step_writeNext_inHand hhand hlog opens, writeEntry]
  exact congrArg Except.ok ((if_neg hdrop).trans (if_neg hclosed))

theorem mimics_lockFile (hI : CallInv h s) (hat : s.point = .file d)
    (hlog : getl s.log.output_id s.log.lists ≠ none)
    (hfree : s.owner (.file (.ofLevel d.level)) = none) (opens : Bool) :
    Mimics s (s.lockFile opens d).1 (s.lockFile opens d).2 := by
  have hhand : s.point.inHand = some d := by rw [hat, WritePoint.inHand]
  apply Mimics.one (b := .writeNext opens)
  have hlocked : (fun k => ((s.lockFile opens d).1.owner (.file k)).isSome) =
      Function.update s.log.locked (.ofLevel d.level) true := by
    funext k
    rw [owner_lockFile]
    by_cases hk : k = .ofLevel d.level
    · rw [hk, Function.update_self, Function.update_self]
      rfl
    · rw [Function.update_of_ne (by simpa using hk), Function.update_of_ne hk]
      split <;> rfl
  have hagain : (s.lockFile opens d).1.log = { s.log with
      lists := s.lists, fd := Function.update s.fd (.ofLevel d.level) opens
      locked := Function.update s.log.locked (.ofLevel d.level) true } := by
    rw [← hlocked]
    refine log_again hhand _ _ ?_
    split <;> rfl
  have hheld : ¬ s.log.locked (.ofLevel d.level) = true := by
    show ¬ (s.owner _).isSome = true
    rw [hfree]
    nofun
  rw [step_writeNext_file hI hat hlog opens, if_neg hheld, hagain]
  rfl

theorem mutex2_of_speaks {t : ℕ} (ht : s.Speaks t) : s.log.mutex2 = some t := by
  show (if s.asked.isSome = true then none else s.owner .statement) = some t
  rw [ht.1, ht.2]
  rfl

/-- In `is_debug_fc` the thread has the mutex of the statements. -/
theorem CallInv.asked_eq_none (hI : CallInv h s) (hfree : s.owner .statement = none) :
    s.asked = none := by
  by_contra hne
  exact hI.asked (Option.isSome_iff_ne_none.mpr hne) hfree

/-- **Every step at the mutexes** is seen in the log system as one step, or two, or none. -/
theorem mimics_step (hI : CallInv h s) (hlog : getl s.log.output_id s.log.lists ≠ none)
    (hs : calls.step s a = .ok (s', e)) : Mimics s s' e := by
  obtain ⟨hgrant, hs⟩ := of_guard_ok hs
  cases a with
  | setLevel t level =>
    obtain ⟨-, rfl, rfl⟩ := of_guard_mk hs
    by_cases hasked : s.asked = none
    · apply Mimics.one (b := .setLevel t level)
      show Except.ok ({ s.log with log2_level := level }, LogOut.none) =
        .ok ({ s.log with log2_level := s.asked.getD level }, .none)
      rw [hasked]
      rfl
    · -- nobody sees the level before the thread that asks is through
      obtain ⟨l, hl⟩ := Option.ne_none_iff_exists'.mp hasked
      apply Mimics.none
      show { s.log with log2_level := s.asked.getD level } =
        { s.log with log2_level := s.asked.getD s.log2_level }
      rw [hl]
      rfl
  | lock2 t =>
    obtain ⟨-, rfl, rfl⟩ := of_guard_mk hs
    have hfree : s.owner .statement = none := hgrant
    apply Mimics.none
    show { s.log with log2_level := s.log2_level, mutex2 := none } =
      { s.log with
        log2_level := s.asked.getD s.log2_level
        mutex2 := if s.asked.isSome = true then none else s.owner .statement }
    rw [hI.asked_eq_none hfree, hfree]
    rfl
  | isDebugFc t =>
    rw [CallState.next] at hs
    split at hs
    · contradiction
    · next level hasked =>
      obtain ⟨ht, rfl, rfl⟩ := of_guard_mk hs
      -- the level that was asked for is the one of the log system, and then the last one
      have hmutex : s.log.mutex2 = none := by
        show (if s.asked.isSome = true then none else s.owner .statement) = none
        rw [hasked]
        rfl
      apply Mimics.two (b := .acquire t) (c := .setLevel t s.log2_level) (if_pos ⟨hmutex, rfl⟩)
      show Except.ok ({ s.log with
          mutex2 := some t, present := decide (s.asked.getD s.log2_level ∈ s.fc)
          log2_level := s.log2_level }, LogOut.none) =
        .ok ({ s.log with
          mutex2 := s.owner .statement, present := decide (level ∈ s.fc)
          log2_level := s.log2_level }, .none)
      rw [hasked, ht]
      rfl
  | put t piece =>
    obtain ⟨ht, rfl, rfl⟩ := of_guard_mk hs
    exact .one (b := .put t piece) (if_pos (mutex2_of_speaks ht))
  | endlog t strd =>
    obtain ⟨ht, rfl, rfl⟩ := of_guard_mk hs
    have hmsg : outMsg strd s.log.toLogVars =
        (putBack s.output_id s.point.inHand (outMsg strd s.toLogVars).1,
          (outMsg strd s.toLogVars).2) := by
      rw [← outMsg_putBack]
      show outMsg strd { s.log.toLogVars with log2_level := s.asked.getD s.log2_level } = _
      rw [ht.1]
      rfl
    apply Mimics.one (b := .endlog t strd)
    refine (if_pos (mutex2_of_speaks ht)).trans ?_
    rw [hmsg]
    show _ = Except.ok ({ s.log with
      lists := putBack s.output_id s.point.inHand (outMsg strd s.toLogVars).1, sbuf := []
      present := false, mutex2 := if s.asked.isSome = true then none else none }, _)
    rw [ite_self]
  | outLogging t strd text =>
    obtain ⟨-, rfl, rfl⟩ := of_guard_mk hs
    apply Mimics.one (b := .outLogging strd text)
    show Except.ok ({ s.log with lists := outAll (.new strd 255 text) s.log.lists },
        LogOut.message (.new strd 255 text)) =
      .ok ({ s.log with
        lists := putBack s.output_id s.point.inHand (outAll (.new strd 255 text) s.lists) },
        .message (.new strd 255 text))
    rw [← outAll_putBack]
    rfl
  | termAdd t fh =>
    obtain ⟨-, hs⟩ := of_guard_ok hs
    obtain ⟨⟨v, e'⟩, hadd, heq⟩ := of_map_ok hs
    obtain ⟨rfl, rfl⟩ := Prod.mk.inj heq
    have hkeep : v.output_id = s.output_id ∧ v.log2_level = s.log2_level := by
      rcases termAdd_cases hadd with ⟨rfl, -⟩ | ⟨num, -, -, rfl, -⟩
      · exact ⟨rfl, rfl⟩
      · exact ⟨rfl, rfl⟩
    have hl : getl s.output_id s.lists ≠ none := by
      intro hnone
      apply hlog
      show getl s.output_id (putBack s.output_id _ s.lists) = none
      rw [getl_putBack, hnone, Option.map_none]
    have hadd' := termAdd_putBack (o := s.point.inHand) hadd hl (s.asked.getD s.log2_level)
    apply Mimics.one (b := .termAdd fh)
    show (termAdd fh { s.toLogVars with
        lists := putBack s.output_id s.point.inHand s.lists
        log2_level := s.asked.getD s.log2_level }).map
          (fun x => ({ s.log with toLogVars := x.1 }, x.2)) =
      .ok ({ s.log with toLogVars := { v with
        lists := putBack v.output_id s.point.inHand v.lists
        log2_level := s.asked.getD v.log2_level } }, e')
    rw [hadd', hkeep.1, hkeep.2]
    rfl
  | termDel t fh =>
    obtain ⟨-, rfl, rfl⟩ := of_guard_mk hs
    have hkeep : (termDel fh s.toLogVars).output_id = s.output_id ∧
        (termDel fh s.toLogVars).log2_level = s.log2_level := by
      rw [termDel]
      split <;> exact ⟨rfl, rfl⟩
    apply Mimics.one (b := .termDel fh)
    show Except.ok ({ s.log with toLogVars := termDel fh { s.toLogVars with
          lists := putBack s.output_id s.point.inHand s.lists
          log2_level := s.asked.getD s.log2_level } }, LogOut.none) =
      .ok ({ s.log with toLogVars := { termDel fh s.toLogVars with
        lists := putBack (termDel fh s.toLogVars).output_id s.point.inHand
          (termDel fh s.toLogVars).lists
        log2_level := s.asked.getD (termDel fh s.toLogVars).log2_level } }, .none)
    rw [termDel_putBack, hkeep.1, hkeep.2]
  | addFc t n =>
    obtain ⟨-, rfl, rfl⟩ := of_guard_mk hs
    exact .one (b := .addFc n) rfl
  | delFc t n =>
    obtain ⟨-, rfl, rfl⟩ := of_guard_mk hs
    exact .one (b := .delFc n) rfl
  | lockLoop =>
    obtain ⟨hcalled, rfl, rfl⟩ := of_guard_mk hs
    rcases hcalled with ⟨hfree, -⟩ | hat
    · have hat : s.point = .outside := hfree.2 rfl
      apply Mimics.one (b := .writeBegin)
      refine (if_pos ⟨if_pos hat, rfl⟩).trans ?_
      show Except.ok ({ s.log with
          lists := putBack s.output_id s.point.inHand s.lists, writer := .running }, _) =
        .ok ({ s.log with lists := putBack s.output_id none s.lists, writer := .running }, _)
      rw [hat]
      rfl
    · apply Mimics.none
      show { s.log with lists := putBack s.output_id none s.lists, writer := .running } =
        { s.log with
          lists := putBack s.output_id s.point.inHand s.lists
          writer := if s.point = .outside then .idle else .running }
      rw [hat]
      rfl
  | getEntry =>
    obtain ⟨hat, hs⟩ := of_guard_ok hs
    exact mimics_getEntry hat hs
  | lockDebug =>
    rw [CallState.next] at hs
    split at hs
    · next d hat => exact mimics_lockDebug hI hat hlog (Except.ok.inj hs)
    · contradiction
  | lockFile k opens =>
    rw [CallState.next] at hs
    split at hs
    · next d hat =>
      obtain ⟨hk, hs⟩ := of_guard_ok hs
      have hfile := Except.ok.inj hs
      obtain rfl : (s.lockFile opens d).1 = s' := congrArg Prod.fst hfile
      obtain rfl : (s.lockFile opens d).2 = e := congrArg Prod.snd hfile
      subst hk
      exact mimics_lockFile hI hat hlog hgrant opens
    · contradiction

/-- **The log system is what is seen of its mutexes**: every run of the threads is one of the log
system, which sees the same of it. -/
theorem logging_of_calls (hr : calls.Reaches h s) :
    ∃ g, logging.Reaches g s.log ∧
      (g.flatMap fun x => x.2.seen) = h.flatMap fun x => x.2.seen := by
  obtain ⟨g, _, hg, rfl, hseen⟩ := hr.simulate_play calls logging (R := fun s t => t = s.log)
    LogOut.seen LogOut.seen rfl fun h g s t a s' e hr hrt ht hs => by
      obtain rfl := ht
      obtain ⟨logs, hlog, -⟩ := (outputs_reached hrt).2.file
      obtain ⟨bs, hs', hseen⟩ := mimics_step (callInv_reached hr) (by rw [hlog]; nofun) hs
      exact ⟨bs, hs'.symm, hseen⟩
  exact ⟨g, hg, hseen⟩

/-! ## The deadlock of the low priority task -/

theorem CallInv.free_of_not_lost (hI : CallInv h s) {d : LogData} (hat : s.point = .file d)
    (hlost : ¬ Lost (.ofLevel d.level) h) : s.owner (.file (.ofLevel d.level)) = none := by
  cases hI.file (.ofLevel d.level) with
  | closed hnone => exact hnone
  | opened _ hopen => exact absurd (hopen.symm.trans (hI.closed d hat)) nofun
  | kept _ _ hkept => contradiction

/-- A task that asks for a mutex that it has kept waits for itself. -/
theorem CallInv.deadlocked_iff (hI : CallInv h s) {d : LogData} (hat : s.point = .file d) :
    callMutexes.Deadlocked s {mainThread} ↔ Lost (.ofLevel d.level) h := by
  have hwaits : s.waits mainThread = some (.file (.ofLevel d.level)) := by
    rw [hI.waits_main (by simp [hat]), hat, WritePoint.waits]
  constructor
  · intro hD
    by_contra hlost
    obtain ⟨x, hx, t, -, howner⟩ := hD mainThread rfl
    obtain rfl := Option.some.inj (hwaits.symm.trans hx)
    exact Option.some_ne_none t (howner.symm.trans (hI.free_of_not_lost hat hlost))
  · intro hlost
    cases hI.file (.ofLevel d.level) with
    | closed _ _ hnot => contradiction
    | opened _ _ hnot => contradiction
    | kept howner => exact Mutexes.deadlocked_singleton hwaits howner

/-- The log system calls the task stuck where it waits for itself. -/
theorem writeNext_stuck_iff (hr : calls.Reaches h s) {d : LogData} (hat : s.point = .file d)
    (opens : Bool) : (∃ t, logging.step s.log (.writeNext opens) = .ok (t, .stuck d)) ↔
      callMutexes.Deadlocked s {mainThread} := by
  have hI := callInv_reached hr
  obtain ⟨g, hg, -⟩ := logging_of_calls hr
  obtain ⟨logs, hlog, -⟩ := (outputs_reached hg).2.file
  rw [hI.deadlocked_iff hat, step_writeNext_file hI hat (by rw [hlog]; nofun) opens]
  cases hI.file (.ofLevel d.level) with
  | closed howner _ hlost =>
    have hheld : ¬ s.log.locked (.ofLevel d.level) = true := by
      show ¬ (s.owner _).isSome = true
      rw [howner]
      nofun
    rw [if_neg hheld]
    refine iff_of_false ?_ hlost
    rintro ⟨t, ht⟩
    have hout := (Prod.mk.inj (Except.ok.inj ht)).2
    cases opens <;> contradiction
  | opened _ hopen => exact absurd (hopen.symm.trans (hI.closed d hat)) nofun
  | kept howner _ hlost =>
    have hheld : s.log.locked (.ofLevel d.level) = true := by
      show (s.owner _).isSome = true
      rw [howner]
      rfl
    rw [if_pos hheld]
    exact iff_of_true ⟨_, rfl⟩ hlost

theorem step_lockFile {d : LogData} (hat : s.point = .file d)
    (hfree : s.owner (.file (.ofLevel d.level)) = none) (opens : Bool) :
    calls.step s (.lockFile (.ofLevel d.level) opens) = .ok (s.lockFile opens d) := by
  show (if s.owner (.file (.ofLevel d.level)) = none then _ else _) = _
  rw [if_pos hfree, CallState.next, hat]
  exact if_pos rfl

theorem eq_lock2_of_asks (ha : a.asks = some .statement) : ∃ t, a = .lock2 t := by
  cases a with
  | lock2 t => exact ⟨t, rfl⟩
  | _ => simp [CallStep.asks] at ha

/-- While the deadlocked task has `mutex_`, a thread that gets `Mutex2_` keeps it: it does not get
through `is_debug_fc`. -/
theorem no_lock2_behind {post rest : List (CallStep × LogOut)}
    (hr : calls.Reaches h s) (hD : callMutexes.Deadlocked s {mainThread})
    (howner : s.owner .logFile = some mainThread)
    (hr' : calls.Reaches (h ++ (post ++ (a, e) :: rest)) s') (ha : a.asks = some .statement) :
    ∀ y ∈ rest, y.1.asks ≠ some .statement := by
  rw [← List.append_assoc] at hr'
  obtain ⟨s₁, s₂, hr₁, hs⟩ := hr'.of_append
  have hr₂ := hr₁.step hs
  obtain ⟨t, rfl⟩ := eq_lock2_of_asks ha
  obtain ⟨hD₁, hkeep, -⟩ := hD.run hr hr₁
  have howner₁ : s₁.owner .logFile = some mainThread := hkeep _ _ rfl howner
  have hD₂ := hD₁.step hr₁ hs
  cases (callEffect hs).2 with
  | quiet hthread ha => exact absurd rfl ha
  | lock2 t hfree howner' hasked =>
    -- the thread has `Mutex2_` and waits for `mutex_`: it is deadlocked with the task
    have hmutex : s₂.owner .statement = some t := by rw [howner', Function.update_self]
    have hlog : s₂.owner .logFile = some mainThread := by
      rw [howner', Function.update_of_ne (by simp), howner₁]
    have hwaits : s₂.waits t = some .logFile := by
      rw [CallState.waits, if_pos ⟨by rw [hasked]; rfl, hmutex⟩]
    have hboth := hD₂.insert (t := t) hwaits hlog rfl
    have hrest : calls.Reaches (h ++ post ++ [(.lock2 t, .none)] ++ rest) s' := by
      rwa [List.append_assoc, List.singleton_append]
    obtain ⟨-, -, hsteps⟩ := hboth.run hr₂ hrest
    exact fun y hy => (hsteps y hy).2 .statement t (Set.mem_insert _ _) hmutex

/-- **The low priority task stops for ever** at the lock of the mutex of a file if and only if a
message for this file has been lost.  With the debug file it has `mutex_` there, so that no thread
gets through `is_debug_fc` any more, and behind the first one that asks there no thread begins a
statement. -/
theorem stuck_forever {d : LogData} (hr : calls.Reaches h s) (hat : s.point = .file d) :
    ((∀ post s', calls.Reaches (h ++ post) s' → ∀ x ∈ post, x.1.thread ≠ mainThread) ↔
      Lost (.ofLevel d.level) h) ∧
    (LogKind.ofLevel d.level = .debug → Lost .debug h → ∀ post s', calls.Reaches (h ++ post) s' →
      (∀ x ∈ post, x.1.asks ≠ some .logFile) ∧
        ∀ mid x rest, post = mid ++ x :: rest → x.1.asks = some .statement →
          ∀ y ∈ rest, y.1.asks ≠ some .statement) := by
  have hI := callInv_reached hr
  refine ⟨⟨fun hnever => ?_, fun hlost post s' hr' x hx => ?_⟩, fun hk hlost post s' hr' => ?_⟩
  · by_contra hlost
    -- nobody has the mutex, so the task can go on
    have hs := step_lockFile hat (hI.free_of_not_lost hat hlost) true
    exact hnever _ _ (hr.step hs) _ (List.mem_singleton_self _) rfl
  · obtain ⟨-, -, hsteps⟩ := ((hI.deadlocked_iff hat).mpr hlost).run hr hr'
    exact (hsteps x hx).1
  · rw [← hk] at hlost
    have hD := (hI.deadlocked_iff hat).mpr hlost
    have howner : s.owner .logFile = some mainThread := by
      simp [hI.logFile, hat, WritePoint.holds, hk]
    refine ⟨fun x hx => ?_, ?_⟩
    · obtain ⟨-, -, hsteps⟩ := hD.run hr hr'
      exact (hsteps x hx).2 _ _ rfl howner
    · rintro mid x rest rfl hx
      exact no_lock2_behind hr hD howner hr' hx

end

/-- Two messages of debugging; the file does not open. -/
def twoDebugs : List CallStep :=
  [.addFc 1 1, .setLevel 1 1, .lock2 1, .isDebugFc 1, .put 1 (str "a"), .endlog 1 (str "[] "),
    .setLevel 2 1, .lock2 2, .isDebugFc 2, .put 2 (str "b"), .endlog 2 (str "[] "),
    .lockLoop, .getEntry, .lockDebug, .lockFile .debug false, .lockLoop, .getEntry, .lockDebug]

/-- The task stops at the second message, and with it all who begin a statement. -/
theorem stuck_forever_debug :
    (∀ post s', calls.Reaches (calls.history twoDebugs ++ post) s' →
      ∀ x ∈ post, x.1.thread ≠ mainThread) ∧
    ∀ post s', calls.Reaches (calls.history twoDebugs ++ post) s' →
      (∀ x ∈ post, x.1.asks ≠ some .logFile) ∧
        ∀ mid x rest, post = mid ++ x :: rest → x.1.asks = some .statement →
          ∀ y ∈ rest, y.1.asks ≠ some .statement := by
  have hat : (calls.final twoDebugs).point = .file ⟨1, str "[] TACACS: b"⟩ := by decide +kernel
  have hlost : Lost .debug (calls.history twoDebugs) :=
    ⟨(.lockFile .debug false, .lost .debug ⟨1, str "[] TACACS: a"⟩), by decide +kernel, _, rfl⟩
  obtain ⟨hmain, hdebug⟩ := stuck_forever (calls.reaches_history twoDebugs) hat
  exact ⟨hmain.mpr hlost, hdebug rfl hlost⟩

end Tacppd
