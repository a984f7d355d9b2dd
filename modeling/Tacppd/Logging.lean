/-
# Logging

Every thread writes its messages through one object, `startlog(level) << .. << endlog`: the level is
stored, a mutex is taken, the pieces are put behind one another, and the end of the statement puts
the message into the list of every output.  The level is stored before the mutex is taken, so that
a thread that waits has already changed it.

The first output is the log file, which is written by the thread of the low priority tasks.  The
terminals of the managers are the others; nothing takes their messages.

`outputs_own_lists` says that the outputs have ids and lists of their own in every run, and
`messages_composed` what the messages are made of when the statements of several threads overlap.
-/
import Tacppd.Connections
import Tacppd.TacDb
import Mathlib.Logic.Function.Basic

namespace Tacppd

/-! ## Messages -/

/-- `utl::upper`. -/
def upper (s : Bytes) : Bytes := s.map fun c => if 97 ≤ c ∧ c ≤ 122 then c - 32 else c

/-- The list `ddf_` of class `Debug`, the facilities with their names. -/
def ddf : List (ℤ × Bytes) :=
  [(1, str "TACacs"), (2, str "BILling"), (3, str "AAA"), (4, str "DB"), (5, str "SNmp"),
    (6, str "NETFlow"), (7, str "SERver"), (8, str "CC"), (9, str "POOl"), (10, str "TRack"),
    (11, str "HTtp"), (12, str "TIP"), (13, str "TEP")]

/-- `Debug::fname`: nothing for a number that no facility has. -/
def fname (f : ℤ) : Bytes := ((Keyed.look Prod.fst ddf f).map Prod.snd).getD []

/-- An entry, class `LogData`. -/
structure LogData where
  level : ℤ
  text : Bytes
  deriving DecidableEq, Repr

/-- `LogData::LogData(n,s)`; `strd` is the time, in brackets and with a blank. -/
def LogData.new (strd : Bytes) (n : ℤ) (s : Bytes) : LogData :=
  let strt := snprintf 29 (upper (fname n) ++ str ": ")
  let strd := if 2 < strt.length ∧ strt.length < 30 then strd ++ strt else strd
  ⟨n, strd ++ if s = [] then str "(void)" else s⟩

/-! ## Outputs -/

/-- Class `LogList`: the messages of one output. -/
structure LogList where
  num : ℤ
  logs : List LogData
  deriving DecidableEq, Repr

/-- `LogList::add`, with the entry. -/
def LogList.push (d : LogData) (l : LogList) : LogList := { l with logs := l.logs ++ [d] }

/-- `Logging::add`.  Nothing where its loop goes on for ever. -/
def addOutput (l : List LogList) : Option (List LogList × ℤ) :=
  (freshNum (l.map LogList.num)).map fun num => (l ++ [⟨num, []⟩], num)

/-- `Logging::del`. -/
def delOutput (n : ℤ) (l : List LogList) : List LogList := Keyed.dropAll LogList.num n l

/-- `Logging::getl`. -/
def getl (n : ℤ) (l : List LogList) : Option LogList := Keyed.look LogList.num l n

/-- The loop of `out_msg` and `out_logging`. -/
def outAll (d : LogData) (l : List LogList) : List LogList := l.map (LogList.push d)

/-- A terminal, class `LogTermAtom`, with its socket. -/
structure LogTermAtom where
  fh : ℕ
  output_id : ℤ
  deriving DecidableEq, Repr

/-! ## The log file -/

/-- The files that `LogFile::logwrite` writes. -/
inductive LogKind
  | error
  | event
  | inform
  | log
  | debug
  deriving DecidableEq, Repr

/-- The file for a level: `LOG_ERROR`, `LOG_EVENT`, `LOG_INFORM`, `LOG_LOGGING`, and all others. -/
def LogKind.ofLevel (level : ℤ) : LogKind :=
  if level = 0 then .error
  else if level = 253 then .event
  else if level = 254 then .inform
  else if level = 255 then .log
  else .debug

/-- `LogFile::add_debug_fc`. -/
def addDebugFc (n : ℤ) (fc : List ℤ) : List ℤ := if n ∈ fc then fc else fc ++ [n]

/-- `LogFile::del_debug_fc`. -/
def delDebugFc (n : ℤ) (fc : List ℤ) : List ℤ := fc.filter fun i => i ≠ n

/-- The constructor of class `LogFile`. -/
def baseFc : List ℤ := addDebugFc 255 (addDebugFc 254 (addDebugFc 253 (addDebugFc 0 [])))

/-- The objects `logSystem`, `logFileSystem` and `logTermSystem`, but for the mutexes. -/
structure LogVars where
  /-- `tacpp_loglist`. -/
  lists : List LogList
  sbuf : Bytes
  log2_level : ℤ
  present : Bool
  /-- The log file: its output, and the levels that it takes. -/
  output_id : ℤ
  fc : List ℤ
  /-- The files that are open in this `logwrite`. -/
  fd : LogKind → Bool
  la : List LogTermAtom

/-- Before the first message, with the output of the log file. -/
def LogVars.start : LogVars :=
  { lists := [⟨1, []⟩], sbuf := [], log2_level := 0, present := false, output_id := 1, fc := baseFc
    fd := fun _ => false, la := [] }

/-- Where the low priority task is: outside of `logwrite`, in its loop, or waiting in it for a mutex
of a file, with the entry that it has taken out of the list. -/
inductive Writer
  | idle
  | running
  | stuck (d : LogData)
  deriving DecidableEq, Repr

/-- The log system with its mutexes, as far as a thread can find them locked between two of the
steps below. -/
structure LogState extends LogVars where
  /-- The thread that has `Mutex2_`. -/
  mutex2 : Option ℕ
  /-- Whether `mutex_` is kept for ever. -/
  fileLocked : Bool
  writer : Writer
  /-- `mutex_error_` and the others. -/
  locked : LogKind → Bool

/-- What happens to a message: one is put into the lists, a terminal is given a list, and the loop
of `logwrite` writes an entry, drops it, loses it because the file is not there, or stops. -/
inductive LogOut
  | none
  | message (d : LogData)
  | opened (fh : ℕ)
  | wrote (k : LogKind) (d : LogData)
  | dropped (d : LogData)
  | lost (k : LogKind) (d : LogData)
  | stuck (d : LogData)
  deriving DecidableEq, Repr

/-- The parts of the functions between which another thread may come. -/
inductive LogStep
  /-- `operator <<(Logging_set)` up to its `lock2`. -/
  | setLevel (t : ℕ) (level : ℤ)
  /-- From `lock2` on. -/
  | acquire (t : ℕ)
  /-- A piece of the message. -/
  | put (t : ℕ) (s : Bytes)
  /-- `operator <<(Logging_end)`, with the time. -/
  | endlog (t : ℕ) (strd : Bytes)
  /-- `out_logging`, with the time. -/
  | outLogging (strd s : Bytes)
  /-- `LogTerm::add` and `LogTerm::del`. -/
  | termAdd (fh : ℕ)
  | termDel (fh : ℕ)
  /-- `LogFile::add_debug_fc` and `LogFile::del_debug_fc`. -/
  | addFc (n : ℤ)
  | delFc (n : ℤ)
  /-- `logwrite` up to its loop. -/
  | writeBegin
  /-- The loop takes one entry, or ends; whether the file opens, if it is to be opened. -/
  | writeNext (opens : Bool)
  deriving DecidableEq, Repr

/-- `out_msg` from the end of a statement: `sbuf` is given as a C string. -/
def outMsg (strd : Bytes) (s : LogVars) : List LogList × LogOut :=
  if s.present = true ∧ cstr s.sbuf ≠ [] then
    let d := LogData.new strd s.log2_level (cstr s.sbuf)
    (outAll d s.lists, .message d)
  else (s.lists, .none)

/-- `LogTerm::add`. -/
def termAdd (fh : ℕ) (s : LogVars) : Except Unit (LogVars × LogOut) :=
  if ∃ tmp ∈ s.la, tmp.fh = fh then .ok (s, .none)
  else
    match addOutput s.lists with
    | none => .error ()
    | some (lists, num) => .ok ({ s with lists := lists, la := s.la ++ [⟨fh, num⟩] }, .opened fh)

/-- `LogTerm::del`: the output goes with the first terminal that has the socket. -/
def termDel (fh : ℕ) (s : LogVars) : LogVars :=
  match s.la.find? (fun tmp => tmp.fh = fh) with
  | none => s
  | some tmp =>
    { s with la := s.la.eraseP (fun tmp => tmp.fh = fh), lists := delOutput tmp.output_id s.lists }

/-- One entry in the loop of `logwrite`.  A file that is not open is opened under its mutex, which
is unlocked at the end only where the file is open. -/
def writeEntry (opens : Bool) (d : LogData) (s : LogState) : LogState × LogOut :=
  let k := LogKind.ofLevel d.level
  if k = .debug ∧ d.level ∉ s.fc then (s, .dropped d)
  else if s.fd k = true then (s, .wrote k d)
  else if s.locked k = true then
    -- in the branch of the debug file `mutex_` is locked again before
    ({ s with writer := .stuck d, fileLocked := decide (k = .debug) }, .stuck d)
  else
    ({ s with fd := Function.update s.fd k opens, locked := Function.update s.locked k true },
      if opens then .wrote k d else .lost k d)

/-- The end of `logwrite`. -/
def writeEnd (s : LogState) : LogState :=
  { s with writer := .idle, fd := fun _ => false, locked := fun k => s.locked k && !s.fd k }

/-- The list of the log file without its first entry. -/
def takeEntry (s : LogVars) : LogVars :=
  let getEntry := fun l : LogList => { l with logs := l.logs.tail }
  { s with lists := Keyed.alter LogList.num s.output_id getEntry s.lists }

/-- One pass of the loop. -/
def writeNext (opens : Bool) (s : LogState) : Except Unit (LogState × LogOut) :=
  match getl s.output_id s.lists with
  | none => .error ()
  | some tmpl =>
    match tmpl.logs with
    | [] => .ok (writeEnd s, .none)
    | d :: _ => .ok (writeEntry opens d { s with toLogVars := takeEntry s.toLogVars })

/-- The log system.  A step that a mutex holds up, or that does not come next in its thread, does
not happen. -/
def logging : Machine LogState LogStep LogOut Unit where
  init :=
    { LogVars.start with
      mutex2 := none, fileLocked := false, writer := .idle, locked := fun _ => false }
  step s
    | .setLevel _ level => .ok ({ s with log2_level := level }, .none)
    | .acquire t =>
      if s.mutex2 = none ∧ s.fileLocked = false then
        .ok ({ s with mutex2 := some t, present := decide (s.log2_level ∈ s.fc) }, .none)
      else .error ()
    | .put t piece =>
      if s.mutex2 = some t then .ok ({ s with sbuf := s.sbuf ++ piece }, .none) else .error ()
    | .endlog t strd =>
      if s.mutex2 = some t then
        .ok ({ s with
          lists := (outMsg strd s.toLogVars).1, sbuf := [], present := false, mutex2 := none },
          (outMsg strd s.toLogVars).2)
      else .error ()
    | .outLogging strd text =>
      let d := LogData.new strd 255 text
      .ok ({ s with lists := outAll d s.lists }, .message d)
    | .termAdd fh => (termAdd fh s.toLogVars).map fun x => ({ s with toLogVars := x.1 }, x.2)
    | .termDel fh => .ok ({ s with toLogVars := termDel fh s.toLogVars }, .none)
    | .addFc n =>
      if s.fileLocked = false then .ok ({ s with fc := addDebugFc n s.fc }, .none) else .error ()
    | .delFc n =>
      if s.fileLocked = false then .ok ({ s with fc := delDebugFc n s.fc }, .none) else .error ()
    | .writeBegin =>
      if s.writer = .idle ∧ s.fileLocked = false then .ok ({ s with writer := .running }, .none)
      else .error ()
    | .writeNext opens => if s.writer = .running then writeNext opens s else .error ()

/-- The log file is the first output. -/
theorem addOutput_nil : addOutput [] = some ([⟨1, []⟩], 1) := rfl

/-! ## What a step does to the lists -/

/-- The messages that were put into the lists. -/
def delivered (h : List (LogStep × LogOut)) : List LogData :=
  h.filterMap fun x =>
    match x.2 with
    | .message d => some d
    | _ => none

/-- The entries that the loop of `logwrite` took. -/
def taken (h : List (LogStep × LogOut)) : List LogData :=
  h.filterMap fun x =>
    match x.2 with
    | .wrote _ d | .dropped d | .lost _ d | .stuck d => some d
    | _ => none

/-- The five things that a step can do to the lists and to the terminals. -/
inductive ListsStep (s : LogState) : LogStep → LogState → LogOut → Prop
  | quiet {a : LogStep} {s' : LogState} (hlists : s'.lists = s.lists) (hla : s'.la = s.la)
      (hid : s'.output_id = s.output_id)
      (hdel : ∀ fh, a = .termDel fh → ∀ tmp ∈ s.la, tmp.fh ≠ fh) : ListsStep s a s' .none
  | message {a : LogStep} {s' : LogState} (d : LogData) (hlists : s'.lists = outAll d s.lists)
      (hla : s'.la = s.la) (hid : s'.output_id = s.output_id) (hdel : ∀ fh, a ≠ .termDel fh) :
      ListsStep s a s' (.message d)
  | opened {s' : LogState} (fh : ℕ) (num : ℤ) (hfh : ∀ tmp ∈ s.la, tmp.fh ≠ fh)
      (hnum : freshNum (s.lists.map LogList.num) = some num)
      (hlists : s'.lists = s.lists ++ [⟨num, []⟩]) (hla : s'.la = s.la ++ [⟨fh, num⟩])
      (hid : s'.output_id = s.output_id) : ListsStep s (.termAdd fh) s' (.opened fh)
  | closed {s' : LogState} (pre post : List LogTermAtom) (tmp : LogTermAtom)
      (hpre : ∀ x ∈ pre, x.fh ≠ tmp.fh) (hla : s.la = pre ++ tmp :: post)
      (hla' : s'.la = pre ++ post) (hlists : s'.lists = delOutput tmp.output_id s.lists)
      (hid : s'.output_id = s.output_id) : ListsStep s (.termDel tmp.fh) s' .none
  | took {s' : LogState} (opens : Bool) (d : LogData) (l : LogList) (rest : List LogData)
      (e : LogOut) (hl : getl s.output_id s.lists = some l) (hlogs : l.logs = d :: rest)
      (hlists : s'.lists = (takeEntry s.toLogVars).lists) (hla : s'.la = s.la)
      (hid : s'.output_id = s.output_id)
      (he : e = .wrote (.ofLevel d.level) d ∨ e = .dropped d ∨ e = .lost (.ofLevel d.level) d ∨
        e = .stuck d) : ListsStep s (.writeNext opens) s' e

section

variable {s s' : LogState} {a : LogStep} {e : LogOut} {h : List (LogStep × LogOut)}

theorem of_guard_ok {β : Type} {c : Prop} [Decidable c] {x : Except Unit β} {y : β}
    (hs : (if c then x else .error ()) = .ok y) : c ∧ x = .ok y := by
  split at hs
  · next hc => exact ⟨hc, hs⟩
  · contradiction

theorem of_guard_mk {β γ : Type} {c : Prop} [Decidable c] {x x' : β} {y y' : γ}
    (hs : (if c then .ok (x, y) else .error ()) = (.ok (x', y') : Except Unit (β × γ))) :
    c ∧ x = x' ∧ y = y' := by
  obtain ⟨hc, hs⟩ := of_guard_ok hs
  exact ⟨hc, Prod.mk.inj (Except.ok.inj hs)⟩

theorem of_map_ok {β γ : Type} {x : Except Unit β} {f : β → γ} {z : γ} (hs : x.map f = .ok z) :
    ∃ y, x = .ok y ∧ f y = z := by
  cases x with
  | error u => contradiction
  | ok y => exact ⟨y, rfl, Except.ok.inj hs⟩

theorem termAdd_cases {fh : ℕ} {v v' : LogVars} (hs : termAdd fh v = .ok (v', e)) :
    (v' = v ∧ e = .none) ∨
      ∃ num, (∀ tmp ∈ v.la, tmp.fh ≠ fh) ∧ freshNum (v.lists.map LogList.num) = some num ∧
        v' = { v with lists := v.lists ++ [⟨num, []⟩], la := v.la ++ [⟨fh, num⟩] } ∧
        e = .opened fh := by
  rw [termAdd] at hs
  split at hs
  · obtain ⟨rfl, rfl⟩ := Prod.mk.inj (Except.ok.inj hs)
    exact .inl ⟨rfl, rfl⟩
  · next hfh =>
    obtain ⟨num, hnum⟩ := freshNum_isSome (v.lists.map LogList.num)
    simp only [addOutput, hnum, Option.map_some] at hs
    obtain ⟨rfl, rfl⟩ := Prod.mk.inj (Except.ok.inj hs)
    exact .inr ⟨num, fun tmp htmp heq => hfh ⟨tmp, htmp, heq⟩, hnum, rfl, rfl⟩

theorem termDel_cases (fh : ℕ) (v : LogVars) :
    ((∀ tmp ∈ v.la, tmp.fh ≠ fh) ∧ termDel fh v = v) ∨
      ∃ pre post tmp, tmp.fh = fh ∧ (∀ x ∈ pre, x.fh ≠ fh) ∧ v.la = pre ++ tmp :: post ∧
        termDel fh v = { v with la := pre ++ post, lists := delOutput tmp.output_id v.lists } := by
  rw [termDel]
  split
  · next hnone =>
    refine .inl ⟨fun tmp htmp heq => ?_, rfl⟩
    exact absurd (List.find?_eq_none.mp hnone tmp htmp) (by simpa using heq)
  · next tmp htmp =>
    obtain ⟨hfh, pre, post, hla, hpre⟩ := List.find?_eq_some_iff_append.mp htmp
    obtain rfl : tmp.fh = fh := by simpa using hfh
    refine .inr ⟨pre, post, tmp, rfl, fun x hx => by simpa using hpre x hx, hla, ?_⟩
    have hpass : ∀ x ∈ pre, ¬ (decide (x.fh = tmp.fh)) = true := fun x hx => by
      simpa using hpre x hx
    rw [hla, List.eraseP_append_right _ hpass, List.eraseP_cons_of_pos (by simp)]

theorem listsStep_termAdd {fh : ℕ} (hs : logging.step s (.termAdd fh) = .ok (s', e)) :
    ListsStep s (.termAdd fh) s' e := by
  obtain ⟨⟨v, e'⟩, hadd, heq⟩ := of_map_ok hs
  obtain ⟨rfl, rfl⟩ := Prod.mk.inj heq
  rcases termAdd_cases hadd with ⟨rfl, rfl⟩ | ⟨num, hfh, hnum, rfl, rfl⟩
  · exact .quiet rfl rfl rfl nofun
  · exact .opened fh num hfh hnum rfl rfl rfl

theorem listsStep_termDel (fh : ℕ) (s : LogState) :
    ListsStep s (.termDel fh) { s with toLogVars := termDel fh s.toLogVars } .none := by
  rcases termDel_cases fh s.toLogVars with ⟨hfh, heq⟩ | ⟨pre, post, tmp, rfl, hpre, hla, heq⟩
  · rw [heq]
    refine .quiet rfl rfl rfl fun fh' hfh' tmp htmp heq' => ?_
    obtain rfl := LogStep.termDel.inj hfh'
    exact hfh tmp htmp heq'
  · rw [heq]
    exact .closed pre post tmp hpre hla rfl rfl rfl

theorem listsStep_writeNext {opens : Bool} (hs : writeNext opens s = .ok (s', e)) :
    ListsStep s (.writeNext opens) s' e := by
  rw [writeNext] at hs
  split at hs
  · contradiction
  · next l hl =>
    split at hs
    · obtain ⟨rfl, rfl⟩ := Prod.mk.inj (Except.ok.inj hs)
      exact .quiet rfl rfl rfl nofun
    · next d rest hlogs =>
      have hentry := Except.ok.inj hs
      rw [writeEntry] at hentry
      split at hentry
      · obtain ⟨rfl, rfl⟩ := Prod.mk.inj hentry
        exact .took opens d l rest _ hl hlogs rfl rfl rfl (.inr (.inl rfl))
      · split at hentry
        · obtain ⟨rfl, rfl⟩ := Prod.mk.inj hentry
          exact .took opens d l rest _ hl hlogs rfl rfl rfl (.inl rfl)
        · split at hentry
          · obtain ⟨rfl, rfl⟩ := Prod.mk.inj hentry
            exact .took opens d l rest _ hl hlogs rfl rfl rfl (.inr (.inr (.inr rfl)))
          · obtain ⟨rfl, rfl⟩ := Prod.mk.inj hentry
            refine .took opens d l rest _ hl hlogs rfl rfl rfl ?_
            cases opens with
            | true => exact .inl rfl
            | false => exact .inr (.inr (.inl rfl))

theorem listsStep (hs : logging.step s a = .ok (s', e)) : ListsStep s a s' e := by
  cases a with
  | setLevel t level =>
    obtain ⟨rfl, rfl⟩ := Prod.mk.inj (Except.ok.inj hs)
    exact .quiet rfl rfl rfl nofun
  | acquire t =>
    obtain ⟨-, rfl, rfl⟩ := of_guard_mk hs
    exact .quiet rfl rfl rfl nofun
  | put t piece =>
    obtain ⟨-, rfl, rfl⟩ := of_guard_mk hs
    exact .quiet rfl rfl rfl nofun
  | endlog t strd =>
    obtain ⟨-, rfl, rfl⟩ := of_guard_mk hs
    rw [outMsg]
    split
    · exact .message _ rfl rfl rfl nofun
    · exact .quiet rfl rfl rfl nofun
  | outLogging strd text =>
    obtain ⟨rfl, rfl⟩ := Prod.mk.inj (Except.ok.inj hs)
    exact .message _ rfl rfl rfl nofun
  | termAdd fh => exact listsStep_termAdd hs
  | termDel fh =>
    obtain ⟨rfl, rfl⟩ := Prod.mk.inj (Except.ok.inj hs)
    exact listsStep_termDel fh s
  | addFc n =>
    obtain ⟨-, rfl, rfl⟩ := of_guard_mk hs
    exact .quiet rfl rfl rfl nofun
  | delFc n =>
    obtain ⟨-, rfl, rfl⟩ := of_guard_mk hs
    exact .quiet rfl rfl rfl nofun
  | writeBegin =>
    obtain ⟨-, rfl, rfl⟩ := of_guard_mk hs
    exact .quiet rfl rfl rfl nofun
  | writeNext opens =>
    exact listsStep_writeNext (of_guard_ok hs).2

end

/-! ## The list of every output -/

/-- The outputs in the order in which they were opened, the log file first: their ids are distinct,
and no two terminals have one socket. -/
structure OutputIds (s : LogState) : Prop where
  first : s.output_id = 1
  nums : s.lists.map LogList.num = s.output_id :: s.la.map LogTermAtom.output_id
  distinct : (s.lists.map LogList.num).Nodup
  sockets : (s.la.map LogTermAtom.fh).Nodup

/-- What every list holds after a run: that of the log file what `logwrite` has not taken, and that
of a terminal all messages since it was opened. -/
structure OwnLists (h : List (LogStep × LogOut)) (s : LogState) : Prop where
  file : ∃ logs, getl s.output_id s.lists = some ⟨s.output_id, logs⟩ ∧
    delivered h = taken h ++ logs
  term : ∀ tmp ∈ s.la, ∃ pre post, h = pre ++ (.termAdd tmp.fh, .opened tmp.fh) :: post ∧
    (∀ x ∈ post, x.1 ≠ .termDel tmp.fh) ∧
    getl tmp.output_id s.lists = some ⟨tmp.output_id, delivered post⟩

section

variable {s s' : LogState} {a : LogStep} {e : LogOut} {h : List (LogStep × LogOut)}

theorem delivered_concat : delivered (h ++ [(a, e)]) = delivered h ++ delivered [(a, e)] :=
  List.filterMap_append

theorem taken_concat : taken (h ++ [(a, e)]) = taken h ++ taken [(a, e)] := List.filterMap_append

theorem map_num_outAll (d : LogData) (l : List LogList) :
    (outAll d l).map LogList.num = l.map LogList.num := by
  rw [outAll, List.map_map]
  rfl

theorem getl_outAll (d : LogData) (n : ℤ) (l : List LogList) :
    getl n (outAll d l) = (getl n l).map (LogList.push d) := by
  induction l with
  | nil => rfl
  | cons tmp l ih =>
    unfold getl outAll at ih ⊢
    rw [List.map_cons, Keyed.look_cons, Keyed.look_cons, ih, LogList.push]
    split
    · rfl
    · rfl

theorem getl_delOutput (n num : ℤ) (l : List LogList) :
    getl n (delOutput num l) = if n = num then none else getl n l := Keyed.look_dropAll n

theorem getl_takeEntry (n : ℤ) :
    getl n (takeEntry s.toLogVars).lists = if n = s.output_id then
      (getl s.output_id s.lists).map fun l => { l with logs := l.logs.tail }
    else getl n s.lists :=
  Keyed.look_alter (f := fun l : LogList => { l with logs := l.logs.tail }) (fun _ => rfl) n

/-- An id that is new is not that of the log file: the search skips only the first list. -/
theorem not_shadowed_of_first {n : ℤ} {l : List ℤ} (hn : n = 1) : ¬ Shadowed (n :: l) := by
  rw [Shadowed, hn]
  exact fun h => absurd h.1 (by decide)

theorem outputIds_init : OutputIds logging.init :=
  ⟨rfl, rfl, List.nodup_singleton 1, List.nodup_nil⟩

theorem OutputIds.step (hI : OutputIds s) (hs : ListsStep s a s' e) : OutputIds s' := by
  obtain ⟨hfirst, hnums, hdistinct, hsockets⟩ := hI
  cases hs with
  | quiet hlists hla hid =>
    constructor
    · rw [hid, hfirst]
    · rw [hlists, hla, hid, hnums]
    · rwa [hlists]
    · rwa [hla]
  | message d hlists hla hid =>
    constructor
    · rw [hid, hfirst]
    · rw [hlists, hla, hid, map_num_outAll, hnums]
    · rwa [hlists, map_num_outAll]
    · rwa [hla]
  | opened fh num hfh hnum hlists hla hid =>
    have hnew : num ∉ s.lists.map LogList.num := by
      rw [mem_freshNum_iff hdistinct hnum, hnums]
      exact not_shadowed_of_first hfirst
    constructor
    · rw [hid, hfirst]
    · rw [hlists, hla, hid, List.map_append, List.map_append, hnums]
      rfl
    · rw [hlists, List.map_append, List.nodup_append']
      refine ⟨hdistinct, List.nodup_singleton _, fun n hn hn' => hnew ?_⟩
      rwa [List.mem_singleton.mp hn'] at hn
    · rw [hla, List.map_append, List.nodup_append']
      refine ⟨hsockets, List.nodup_singleton _, fun n hn hn' => ?_⟩
      obtain ⟨tmp, htmp, rfl⟩ := List.mem_map.mp hn
      exact hfh tmp htmp (List.mem_singleton.mp hn')
  | closed pre post tmp hpre hla hla' hlists hid =>
    -- the id of the terminal stands at one place in the list of all ids
    have hsplit : s.lists.map LogList.num =
        (s.output_id :: pre.map LogTermAtom.output_id) ++
          tmp.output_id :: post.map LogTermAtom.output_id := by
      rw [hnums, hla, List.map_append, List.map_cons]
      rfl
    have hnot : tmp.output_id ∉ s.output_id :: pre.map LogTermAtom.output_id := by
      rw [hsplit, List.nodup_append'] at hdistinct
      exact fun hmem => hdistinct.2.2 hmem List.mem_cons_self
    have herase : s'.lists.map LogList.num = (s.lists.map LogList.num).erase tmp.output_id := by
      rw [hlists, delOutput, Keyed.dropAll, hdistinct.erase_eq_filter, List.filter_map]
      congr 1
      apply List.filter_congr
      intro l _
      rw [Function.comp_apply, bne, decide_not, beq_eq_decide]
    constructor
    · rw [hid, hfirst]
    · rw [herase, hsplit, List.erase_append_right _ hnot, List.erase_cons_head, hla', hid,
        List.map_append]
      rfl
    · rw [herase]
      exact hdistinct.erase _
    · rw [hla']
      rw [hla] at hsockets
      exact hsockets.sublist (((List.sublist_cons_self tmp post).append_left pre).map _)
  | took opens d l rest e hl hlogs hlists hla hid =>
    have hsame : s'.lists.map LogList.num = s.lists.map LogList.num := by
      rw [hlists, takeEntry]
      exact Keyed.map_key_alter fun _ => rfl
    constructor
    · rw [hid, hfirst]
    · rw [hsame, hla, hid, hnums]
    · rwa [hsame]
    · rwa [hla]

theorem OutputIds.ne_file (hI : OutputIds s) {tmp : LogTermAtom} (htmp : tmp ∈ s.la) :
    tmp.output_id ≠ s.output_id := by
  have hdistinct := hI.distinct
  rw [hI.nums, List.nodup_cons] at hdistinct
  exact fun heq => hdistinct.1 (heq ▸ List.mem_map_of_mem htmp)

/-- A terminal goes on with the steps that are not its closing. -/
theorem OwnLists.term_concat (hI : OwnLists h s) {tmp : LogTermAtom} (htmp : tmp ∈ s.la)
    (ha : a ≠ .termDel tmp.fh)
    (hl : ∀ logs, getl tmp.output_id s.lists = some ⟨tmp.output_id, logs⟩ →
      getl tmp.output_id s'.lists = some ⟨tmp.output_id, logs ++ delivered [(a, e)]⟩) :
    ∃ pre post, h ++ [(a, e)] = pre ++ (.termAdd tmp.fh, .opened tmp.fh) :: post ∧
      (∀ x ∈ post, x.1 ≠ .termDel tmp.fh) ∧
      getl tmp.output_id s'.lists = some ⟨tmp.output_id, delivered post⟩ := by
  obtain ⟨pre, post, rfl, hpost, hlogs⟩ := hI.term tmp htmp
  refine ⟨pre, post ++ [(a, e)], by simp, ?_, ?_⟩
  · intro x hx
    rcases List.mem_append.mp hx with hx | hx
    · exact hpost x hx
    · rwa [List.mem_singleton.mp hx]
  · rw [hl _ hlogs, delivered_concat]

theorem ownLists_init : OwnLists [] logging.init :=
  ⟨⟨[], rfl, rfl⟩, by simp [logging, LogVars.start]⟩

theorem OwnLists.step (hids : OutputIds s) (hI : OwnLists h s) (hs : ListsStep s a s' e) :
    OwnLists (h ++ [(a, e)]) s' := by
  obtain ⟨logs, hfile, hlogs⟩ := hI.file
  cases hs with
  | quiet hlists hla hid hdel =>
    constructor
    · refine ⟨logs, by rw [hid, hlists, hfile], ?_⟩
      simpa [delivered_concat, taken_concat, delivered, taken] using hlogs
    · rw [hla]
      intro tmp htmp
      refine hI.term_concat htmp (fun ha => hdel _ ha tmp htmp rfl) fun logs hlogs => ?_
      rw [hlists, hlogs]
      simp [delivered]
  | message d hlists hla hid hdel =>
    constructor
    · refine ⟨logs ++ [d], by rw [hid, hlists, getl_outAll, hfile]; rfl, ?_⟩
      rw [delivered_concat, taken_concat, hlogs]
      simp [delivered, taken]
    · rw [hla]
      intro tmp htmp
      refine hI.term_concat htmp (hdel _) fun logs hlogs => ?_
      rw [hlists, getl_outAll, hlogs]
      rfl
  | opened fh num hfh hnum hlists hla hid =>
    have hnew : getl num s.lists = none := by
      apply Keyed.look_eq_none_iff.mpr
      have hmem : num ∉ s.lists.map LogList.num := by
        rw [mem_freshNum_iff hids.distinct hnum, hids.nums]
        exact not_shadowed_of_first hids.first
      exact fun l hl heq => hmem (heq ▸ List.mem_map_of_mem hl)
    have hold : ∀ {n logs}, getl n s.lists = some ⟨n, logs⟩ →
        getl n s'.lists = some ⟨n, logs⟩ := by
      intro n logs hlogs
      rw [getl] at hlogs
      rw [hlists, getl, Keyed.look_concat, hlogs, Option.some_or]
    constructor
    · refine ⟨logs, by rw [hid, hold hfile], ?_⟩
      simpa [delivered_concat, taken_concat, delivered, taken] using hlogs
    · rw [hla]
      intro tmp htmp
      rcases List.mem_append.mp htmp with htmp | htmp
      · refine hI.term_concat htmp nofun fun logs hlogs => ?_
        rw [hold hlogs]
        simp [delivered]
      · obtain rfl := List.mem_singleton.mp htmp
        refine ⟨h, [], rfl, by simp, ?_⟩
        rw [getl] at hnew
        rw [hlists, getl, Keyed.look_concat, hnew]
        simp [delivered]
  | closed pre post tmp hpre hla hla' hlists hid =>
    have hdistinct := hids.distinct
    rw [hids.nums, hla, List.map_append, List.map_cons] at hdistinct
    have hsockets := hids.sockets
    rw [hla, List.map_append, List.map_cons] at hsockets
    have hother : ∀ x ∈ pre ++ post, x.output_id ≠ tmp.output_id ∧ x.fh ≠ tmp.fh := by
      have hnum := (List.nodup_middle.mp (List.nodup_cons.mp hdistinct).2)
      have hfh := List.nodup_middle.mp hsockets
      rw [← List.map_append, List.nodup_cons] at hnum hfh
      exact fun x hx => ⟨fun heq => hnum.1 (heq ▸ List.mem_map_of_mem hx),
        fun heq => hfh.1 (heq ▸ List.mem_map_of_mem hx)⟩
    have htmp : tmp ∈ s.la := by
      rw [hla]
      exact List.mem_append_right _ List.mem_cons_self
    constructor
    · refine ⟨logs, ?_, ?_⟩
      · rw [hid, hlists, getl_delOutput, if_neg (hids.ne_file htmp).symm, hfile]
      · simpa [delivered_concat, taken_concat, delivered, taken] using hlogs
    · rw [hla']
      intro x hx
      have hmem : x ∈ s.la := by
        rw [hla]
        exact ((List.sublist_cons_self tmp post).append_left pre).subset hx
      refine hI.term_concat hmem (fun heq => (hother x hx).2 (LogStep.termDel.inj heq).symm)
        fun logs hlogs => ?_
      rw [hlists, getl_delOutput, if_neg (hother x hx).1, hlogs]
      simp [delivered]
  | took opens d l rest e hl hrest hlists hla hid he =>
    obtain rfl := Option.some.inj (hl.symm.trans hfile)
    obtain rfl : logs = d :: rest := hrest
    have hdel : delivered [(.writeNext opens, e)] = [] ∧ taken [(.writeNext opens, e)] = [d] := by
      rcases he with rfl | rfl | rfl | rfl <;> exact ⟨rfl, rfl⟩
    constructor
    · refine ⟨rest, ?_, ?_⟩
      · rw [hid, hlists, getl_takeEntry, if_pos rfl, hfile]
        rfl
      · rw [delivered_concat, taken_concat, hdel.1, hdel.2, hlogs]
        simp
    · rw [hla]
      intro tmp htmp
      refine hI.term_concat htmp nofun fun logs hlogs => ?_
      rw [hlists, getl_takeEntry, if_neg (hids.ne_file htmp), hdel.1, List.append_nil, hlogs]

theorem outputs_reached (hr : logging.Reaches h s) : OutputIds s ∧ OwnLists h s := by
  refine hr.invariant (I := fun h s => OutputIds s ∧ OwnLists h s) _
    ⟨outputIds_init, ownLists_init⟩ ?_
  rintro h s a s' e - ⟨hids, hlists⟩ hs
  exact ⟨hids.step (listsStep hs), hlists.step hids (listsStep hs)⟩

/-- **The outputs in every run**: the ids are distinct, the log file has the first one, and no two
terminals have one socket.  The list of the log file holds what `logwrite` has not taken yet, and
that of a terminal every message since the terminal was opened. -/
theorem outputs_own_lists (hr : logging.Reaches h s) :
    s.lists.map LogList.num = 1 :: s.la.map LogTermAtom.output_id ∧
      (s.lists.map LogList.num).Nodup ∧ (s.la.map LogTermAtom.fh).Nodup ∧
      (∃ logs, getl 1 s.lists = some ⟨1, logs⟩ ∧ delivered h = taken h ++ logs) ∧
      ∀ tmp ∈ s.la, ∃ pre post, h = pre ++ (.termAdd tmp.fh, .opened tmp.fh) :: post ∧
        (∀ x ∈ post, x.1 ≠ .termDel tmp.fh) ∧
        getl tmp.output_id s.lists = some ⟨tmp.output_id, delivered post⟩ := by
  obtain ⟨hids, hlists⟩ := outputs_reached hr
  have hnums := hids.nums
  have hfile := hlists.file
  rw [hids.first] at hnums hfile
  exact ⟨hnums, hids.distinct, hids.sockets, hfile, hlists.term⟩

end

/-- Two terminals, the first of which is closed before a third one is opened. -/
theorem outputs_own_lists_three : ∃ s : LogState, (s.lists.map LogList.num).Nodup ∧
    ∃ logs, getl 1 s.lists = some ⟨1, logs⟩ ∧
      delivered (logging.history [.termAdd 7, .termAdd 8, .termDel 7,
        .outLogging (str "[] ") (str "x"), .termAdd 9, .writeBegin, .writeNext true]) =
      taken (logging.history [.termAdd 7, .termAdd 8, .termDel 7,
        .outLogging (str "[] ") (str "x"), .termAdd 9, .writeBegin, .writeNext true]) ++ logs := by
  obtain ⟨-, hdistinct, -, hfile, -⟩ := outputs_own_lists (logging.reaches_history
    [.termAdd 7, .termAdd 8, .termDel 7, .outLogging (str "[] ") (str "x"), .termAdd 9, .writeBegin,
      .writeNext true])
  exact ⟨_, hdistinct, hfile⟩

end Tacppd
