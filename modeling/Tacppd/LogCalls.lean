/-
# The mutexes of the log system

`logwrite` gives the mutex of the log file back while it writes an entry, and asks for the mutex
of a file when it opens the file.  It unlocks that mutex at its end, but only where the file is
open: after an open that has failed the low priority task keeps the mutex, and asks for it again
with the next message for the file.

Here a step of a thread goes from one mutex that it may have to wait for to the next one
(`callEffect`), and `CallInv` says who has which mutex in every run.
-/
import Tacppd.Lib.Mutexes
import Tacppd.Logging

namespace Tacppd

/-! ## The threads -/

/-- The mutexes that a thread can have while it waits for another one, or at the end of a function:
`Mutex2_`, `mutex_` of the log file, and `mutex_error_` and the others. -/
inductive LogMutex
  | statement
  | logFile
  | file (k : LogKind)
  deriving DecidableEq, Repr

/-- The thread of the low priority tasks. -/
def mainThread : ℕ := 0

/-- Where the low priority task is in `logwrite`. -/
inductive WritePoint
  | outside
  /-- In front of `getEntry`, with `mutex_`. -/
  | loop
  /-- At the `lock` of the branch of the debug file. -/
  | debug (d : LogData)
  /-- At the lock of the mutex of the file. -/
  | file (d : LogData)
  /-- At the `lock` behind an entry. -/
  | again
  deriving DecidableEq, Repr

/-- The mutex that the task waits for. -/
def WritePoint.waits : WritePoint → Option LogMutex
  | .outside | .loop => none
  | .debug _ | .again => some .logFile
  | .file d => some (.file (.ofLevel d.level))

/-- The log system with the owner of each mutex, and the place of the low priority task. -/
structure CallState extends LogVars where
  owner : LogMutex → Option ℕ
  /-- The level that the thread with `Mutex2_` asks `is_debug_fc` for. -/
  asked : Option ℤ
  point : WritePoint

/-- What a thread does from the lock of a mutex to the next lock, or to the end of a function. -/
inductive CallStep
  /-- `operator <<(Logging_set)` up to its `lock2`, from there to `is_debug_fc`, and the rest. -/
  | setLevel (t : ℕ) (level : ℤ)
  | lock2 (t : ℕ)
  | isDebugFc (t : ℕ)
  /-- A piece of the message. -/
  | put (t : ℕ) (s : Bytes)
  /-- `operator <<(Logging_end)`, with the time. -/
  | endlog (t : ℕ) (strd : Bytes)
  /-- `out_logging`, with the time. -/
  | outLogging (t : ℕ) (strd s : Bytes)
  /-- `LogTerm::add` and `LogTerm::del`. -/
  | termAdd (t fh : ℕ)
  | termDel (t fh : ℕ)
  /-- `LogFile::add_debug_fc` and `LogFile::del_debug_fc`. -/
  | addFc (t : ℕ) (n : ℤ)
  | delFc (t : ℕ) (n : ℤ)
  /-- A `lock` of `logwrite` in front of its loop, or behind an entry. -/
  | lockLoop
  /-- From `getEntry` on. -/
  | getEntry
  /-- From the `lock` of the branch of the debug file on. -/
  | lockDebug
  /-- From the lock of the mutex of a file on; whether the file opens. -/
  | lockFile (k : LogKind) (opens : Bool)
  deriving DecidableEq, Repr

def CallStep.thread : CallStep → ℕ
  | .setLevel t _ | .lock2 t | .isDebugFc t | .put t _ | .endlog t _ | .outLogging t _ _ => t
  | .termAdd t _ | .termDel t _ | .addFc t _ | .delFc t _ => t
  | .lockLoop | .getEntry | .lockDebug | .lockFile _ _ => mainThread

/-- The mutex that a step locks first. -/
def CallStep.asks : CallStep → Option LogMutex
  | .lock2 _ => some .statement
  | .isDebugFc _ | .addFc _ _ | .delFc _ _ | .lockLoop | .lockDebug => some .logFile
  | .lockFile k _ => some (.file k)
  | .setLevel _ _ | .put _ _ | .endlog _ _ | .outLogging _ _ _ => none
  | .termAdd _ _ | .termDel _ _ | .getEntry => none

namespace CallState

/-- The mutex without which a thread cannot go on.  Who waits at `lock2` is not told from who has
not come there. -/
def waits (s : CallState) (t : ℕ) : Option LogMutex :=
  if s.asked.isSome = true ∧ s.owner .statement = some t then some .logFile
  else if t = mainThread then s.point.waits
  else none

/-- The thread can begin with something new: it is not in `is_debug_fc`, and not in `logwrite`. -/
def Free (s : CallState) (t : ℕ) : Prop :=
  s.waits t = none ∧ (t = mainThread → s.point = .outside)

instance (s : CallState) (t : ℕ) : Decidable (s.Free t) :=
  inferInstanceAs (Decidable (_ ∧ _))

/-- The thread has begun a statement, and is behind `is_debug_fc`. -/
def Speaks (s : CallState) (t : ℕ) : Prop := s.asked = none ∧ s.owner .statement = some t

instance (s : CallState) (t : ℕ) : Decidable (s.Speaks t) :=
  inferInstanceAs (Decidable (_ ∧ _))

/-! ## `logwrite` -/

/-- The end of `logwrite`. -/
def close (s : CallState) : CallState :=
  { s with
    fd := fun _ => false
    owner := fun
      | .file k => if s.fd k = true then none else s.owner (.file k)
      | .logFile => none
      | .statement => s.owner .statement
    point := .outside }

/-- An entry is taken, and `mutex_` unlocked. -/
def take (s : CallState) : CallState :=
  { s with toLogVars := takeEntry s.toLogVars, owner := Function.update s.owner .logFile none }

/-- The entry up to the next lock: it is written where its file is open. -/
def entry (d : LogData) (s : CallState) : CallState × LogOut :=
  if LogKind.ofLevel d.level = .debug then ({ s with point := .debug d }, .none)
  else if s.fd (.ofLevel d.level) = true then
    ({ s with point := .again }, .wrote (.ofLevel d.level) d)
  else ({ s with point := .file d }, .none)

/-- From `getEntry` to the next lock. -/
def getEntry (s : CallState) : Except Unit (CallState × LogOut) :=
  match getl s.output_id s.lists with
  | none => .error ()
  | some tmpl =>
    match tmpl.logs with
    | [] => .ok (s.close, .none)
    | d :: _ => .ok (s.take.entry d)

/-- The branch of the debug file: `mutex_` is kept only on the way to `mutex_debug_`. -/
def lockDebug (d : LogData) (s : CallState) : CallState × LogOut :=
  if d.level ∉ s.fc then ({ s with point := .again }, .dropped d)
  else if s.fd .debug = true then ({ s with point := .again }, .wrote .debug d)
  else
    ({ s with owner := Function.update s.owner .logFile (some mainThread), point := .file d },
      .none)

/-- The file is opened; in the branch of the debug file `mutex_` is unlocked behind it. -/
def lockFile (opens : Bool) (d : LogData) (s : CallState) : CallState × LogOut :=
  let k := LogKind.ofLevel d.level
  let owner := if k = .debug then Function.update s.owner .logFile none else s.owner
  ({ s with
    fd := Function.update s.fd k opens
    owner := Function.update owner (.file k) (some mainThread)
    point := .again }, if opens then .wrote k d else .lost k d)

/-! ## The machine -/

/-- What a thread does behind the lock. -/
def next (s : CallState) : CallStep → Except Unit (CallState × LogOut)
  | .setLevel t level =>
    if s.Free t then .ok ({ s with log2_level := level }, .none) else .error ()
  | .lock2 t =>
    if s.Free t then
      .ok ({ s with
        owner := Function.update s.owner .statement (some t), asked := some s.log2_level }, .none)
    else .error ()
  | .isDebugFc t =>
    match s.asked with
    | none => .error ()
    | some level =>
      if s.owner .statement = some t then
        .ok ({ s with present := decide (level ∈ s.fc), asked := none }, .none)
      else .error ()
  | .put t piece =>
    if s.Speaks t then .ok ({ s with sbuf := s.sbuf ++ piece }, .none) else .error ()
  | .endlog t strd =>
    if s.Speaks t then
      .ok ({ s with
        lists := (outMsg strd s.toLogVars).1, sbuf := [], present := false
        owner := Function.update s.owner .statement none }, (outMsg strd s.toLogVars).2)
    else .error ()
  | .outLogging t strd text =>
    let d := LogData.new strd 255 text
    if s.Free t then .ok ({ s with lists := outAll d s.lists }, .message d) else .error ()
  | .termAdd t fh =>
    if s.Free t then (termAdd fh s.toLogVars).map fun x => ({ s with toLogVars := x.1 }, x.2)
    else .error ()
  | .termDel t fh =>
    if s.Free t then .ok ({ s with toLogVars := termDel fh s.toLogVars }, .none) else .error ()
  | .addFc t n => if s.Free t then .ok ({ s with fc := addDebugFc n s.fc }, .none) else .error ()
  | .delFc t n => if s.Free t then .ok ({ s with fc := delDebugFc n s.fc }, .none) else .error ()
  | .lockLoop =>
    if s.Free mainThread ∧ s.owner .statement ≠ some mainThread ∨ s.point = .again then
      .ok ({ s with
        owner := Function.update s.owner .logFile (some mainThread), point := .loop }, .none)
    else .error ()
  | .getEntry => if s.point = .loop then s.getEntry else .error ()
  | .lockDebug =>
    match s.point with
    | .debug d => .ok (s.lockDebug d)
    | _ => .error ()
  | .lockFile k opens =>
    match s.point with
    | .file d => if k = .ofLevel d.level then .ok (s.lockFile opens d) else .error ()
    | _ => .error ()

end CallState

/-- The log system at its mutexes.  A step does not happen while somebody has the mutex that it
locks, or when it does not come next in its thread. -/
def calls : Machine CallState CallStep LogOut Unit where
  init := { LogVars.start with owner := fun _ => none, asked := none, point := .outside }
  step s a := if a.asks.bind s.owner = none then s.next a else .error ()

/-! ## What a step does to the mutexes -/

/-- The mutexes, the place in `is_debug_fc` and in `logwrite`, and the files. -/
inductive CallEffect (s : CallState) : CallStep → CallState → LogOut → Prop
  | quiet {a : CallStep} {s' : CallState} {e : LogOut}
      (hthread : s.Free a.thread ∨ s.Speaks a.thread) (ha : a.asks ≠ some .statement)
      (howner : s'.owner = s.owner) (hasked : s'.asked = s.asked) (hpoint : s'.point = s.point)
      (hfd : s'.fd = s.fd) (hfc : s'.fc = s.fc ∨ a.asks = some .logFile)
      (he : ∀ k d, e ≠ .lost k d) : CallEffect s a s' e
  | lock2 {s' : CallState} (t : ℕ) (hfree : s.Free t)
      (howner : s'.owner = Function.update s.owner .statement (some t))
      (hasked : s'.asked = some s.log2_level) (hpoint : s'.point = s.point) (hfd : s'.fd = s.fd)
      (hfc : s'.fc = s.fc) : CallEffect s (.lock2 t) s' .none
  | isDebugFc {s' : CallState} (t : ℕ) (hin : s.asked.isSome = true)
      (ht : s.owner .statement = some t) (howner : s'.owner = s.owner) (hasked : s'.asked = none)
      (hpoint : s'.point = s.point) (hfd : s'.fd = s.fd) (hfc : s'.fc = s.fc) :
      CallEffect s (.isDebugFc t) s' .none
  | endlog {s' : CallState} {e : LogOut} (t : ℕ) (strd : Bytes) (hspeaks : s.Speaks t)
      (howner : s'.owner = Function.update s.owner .statement none) (hasked : s'.asked = s.asked)
      (hpoint : s'.point = s.point) (hfd : s'.fd = s.fd) (hfc : s'.fc = s.fc)
      (he : ∀ k d, e ≠ .lost k d) : CallEffect s (.endlog t strd) s' e
  | lockLoop {s' : CallState}
      (hcalled : s.Free mainThread ∧ s.owner .statement ≠ some mainThread ∨ s.point = .again)
      (howner : s'.owner = Function.update s.owner .logFile (some mainThread))
      (hasked : s'.asked = s.asked) (hpoint : s'.point = .loop) (hfd : s'.fd = s.fd) :
      CallEffect s .lockLoop s' .none
  | close (hat : s.point = .loop) : CallEffect s .getEntry s.close .none
  | entry {s' : CallState} {e : LogOut} (d : LogData) (hat : s.point = .loop)
      (howner : s'.owner = Function.update s.owner .logFile none) (hasked : s'.asked = s.asked)
      (hpoint : s'.point = .debug d ∧ LogKind.ofLevel d.level = .debug ∨ s'.point = .again ∨
        s'.point = .file d ∧ LogKind.ofLevel d.level ≠ .debug ∧ s.fd (.ofLevel d.level) = false)
      (hfd : s'.fd = s.fd) (he : ∀ k d, e ≠ .lost k d) : CallEffect s .getEntry s' e
  | passed {s' : CallState} {e : LogOut} (d : LogData) (hat : s.point = .debug d)
      (howner : s'.owner = s.owner) (hasked : s'.asked = s.asked) (hpoint : s'.point = .again)
      (hfd : s'.fd = s.fd) (he : ∀ k d, e ≠ .lost k d) : CallEffect s .lockDebug s' e
  | lockDebug {s' : CallState} (d : LogData) (hat : s.point = .debug d)
      (howner : s'.owner = Function.update s.owner .logFile (some mainThread))
      (hasked : s'.asked = s.asked) (hpoint : s'.point = .file d) (hfd : s'.fd = s.fd)
      (hclosed : s.fd .debug = false) (hlevel : d.level ∈ s'.fc) : CallEffect s .lockDebug s' .none
  | lockFile (d : LogData) (opens : Bool) (hat : s.point = .file d) :
      CallEffect s (.lockFile (.ofLevel d.level) opens) (s.lockFile opens d).1
        (s.lockFile opens d).2

section

variable {s s' : CallState} {a : CallStep} {e : LogOut} {h : List (CallStep × LogOut)}

theorem callEffect_getEntry (hat : s.point = .loop) (hs : s.getEntry = .ok (s', e)) :
    CallEffect s .getEntry s' e := by
  rw [CallState.getEntry] at hs
  split at hs
  · contradiction
  · split at hs
    · obtain ⟨rfl, rfl⟩ := Prod.mk.inj (Except.ok.inj hs)
      exact .close hat
    · next d rest hlogs =>
      have hentry := Except.ok.inj hs
      rw [CallState.entry] at hentry
      split at hentry
      · next hdebug =>
        obtain ⟨rfl, rfl⟩ := Prod.mk.inj hentry
        exact .entry d hat rfl rfl (.inl ⟨rfl, hdebug⟩) rfl nofun
      · next hdebug =>
        split at hentry
        · obtain ⟨rfl, rfl⟩ := Prod.mk.inj hentry
          exact .entry d hat rfl rfl (.inr (.inl rfl)) rfl nofun
        · next hclosed =>
          obtain ⟨rfl, rfl⟩ := Prod.mk.inj hentry
          exact .entry d hat rfl rfl (.inr (.inr ⟨rfl, hdebug, Bool.eq_false_iff.mpr hclosed⟩)) rfl
            nofun

theorem callEffect_lockDebug {d : LogData} (hat : s.point = .debug d)
    (hs : s.lockDebug d = (s', e)) : CallEffect s .lockDebug s' e := by
  rw [CallState.lockDebug] at hs
  split at hs
  · obtain ⟨rfl, rfl⟩ := Prod.mk.inj hs
    exact .passed d hat rfl rfl rfl rfl nofun
  · next hlevel =>
    split at hs
    · obtain ⟨rfl, rfl⟩ := Prod.mk.inj hs
      exact .passed d hat rfl rfl rfl rfl nofun
    · next hclosed =>
      obtain ⟨rfl, rfl⟩ := Prod.mk.inj hs
      exact .lockDebug d hat rfl rfl rfl rfl (Bool.eq_false_iff.mpr hclosed) (not_not.mp hlevel)

theorem fd_termDel (fh : ℕ) (v : LogVars) :
    (termDel fh v).fd = v.fd ∧ (termDel fh v).fc = v.fc := by
  rw [termDel]
  split <;> exact ⟨rfl, rfl⟩

/-- A step finds the mutex that it locks free, and has one of these effects. -/
theorem callEffect (hs : calls.step s a = .ok (s', e)) :
    a.asks.bind s.owner = none ∧ CallEffect s a s' e := by
  obtain ⟨hfree, hs⟩ := of_guard_ok hs
  refine ⟨hfree, ?_⟩
  cases a with
  | setLevel t level =>
    obtain ⟨ht, rfl, rfl⟩ := of_guard_mk hs
    exact .quiet (.inl ht) (by simp [CallStep.asks]) rfl rfl rfl rfl (.inl rfl) (by simp)
  | lock2 t =>
    obtain ⟨ht, rfl, rfl⟩ := of_guard_mk hs
    exact .lock2 t ht rfl rfl rfl rfl rfl
  | isDebugFc t =>
    rw [CallState.next] at hs
    split at hs
    · contradiction
    · next level hasked =>
      obtain ⟨ht, rfl, rfl⟩ := of_guard_mk hs
      exact .isDebugFc t (by rw [hasked]; rfl) ht rfl rfl rfl rfl rfl
  | put t piece =>
    obtain ⟨ht, rfl, rfl⟩ := of_guard_mk hs
    exact .quiet (.inr ht) (by simp [CallStep.asks]) rfl rfl rfl rfl (.inl rfl) (by simp)
  | endlog t strd =>
    obtain ⟨ht, rfl, rfl⟩ := of_guard_mk hs
    refine .endlog t strd ht rfl rfl rfl rfl rfl ?_
    rw [outMsg]
    split
    · simp
    · simp
  | outLogging t strd text =>
    obtain ⟨ht, rfl, rfl⟩ := of_guard_mk hs
    exact .quiet (.inl ht) (by simp [CallStep.asks]) rfl rfl rfl rfl (.inl rfl) (by simp)
  | termAdd t fh =>
    obtain ⟨ht, hs⟩ := of_guard_ok hs
    obtain ⟨⟨v, e'⟩, hadd, heq⟩ := of_map_ok hs
    obtain ⟨rfl, rfl⟩ := Prod.mk.inj heq
    rcases termAdd_cases hadd with ⟨rfl, rfl⟩ | ⟨num, -, -, rfl, rfl⟩
    · exact .quiet (.inl ht) (by simp [CallStep.asks]) rfl rfl rfl rfl (.inl rfl) (by simp)
    · exact .quiet (.inl ht) (by simp [CallStep.asks]) rfl rfl rfl rfl (.inl rfl) (by simp)
  | termDel t fh =>
    obtain ⟨ht, rfl, rfl⟩ := of_guard_mk hs
    obtain ⟨hfd, hfc⟩ := fd_termDel fh s.toLogVars
    exact .quiet (.inl ht) (by simp [CallStep.asks]) rfl rfl rfl hfd (.inl hfc) (by simp)
  | addFc t n =>
    obtain ⟨ht, rfl, rfl⟩ := of_guard_mk hs
    exact .quiet (.inl ht) (by simp [CallStep.asks]) rfl rfl rfl rfl (.inr rfl) (by simp)
  | delFc t n =>
    obtain ⟨ht, rfl, rfl⟩ := of_guard_mk hs
    exact .quiet (.inl ht) (by simp [CallStep.asks]) rfl rfl rfl rfl (.inr rfl) (by simp)
  | lockLoop =>
    obtain ⟨hcalled, rfl, rfl⟩ := of_guard_mk hs
    exact .lockLoop hcalled rfl rfl rfl rfl
  | getEntry =>
    obtain ⟨hat, hs⟩ := of_guard_ok hs
    exact callEffect_getEntry hat hs
  | lockDebug =>
    rw [CallState.next] at hs
    split at hs
    · next d hat => exact callEffect_lockDebug hat (Except.ok.inj hs)
    · contradiction
  | lockFile k opens =>
    rw [CallState.next] at hs
    split at hs
    · next d hat =>
      obtain ⟨hk, hs⟩ := of_guard_ok hs
      have hfile := Except.ok.inj hs
      obtain rfl : (s.lockFile opens d).1 = s' := congrArg Prod.fst hfile
      obtain rfl : (s.lockFile opens d).2 = e := congrArg Prod.snd hfile
      rw [hk]
      exact .lockFile d opens hat
    · contradiction

/-! ## Who has the mutexes -/

/-- A message for the file has been lost. -/
def Lost (k : LogKind) (h : List (CallStep × LogOut)) : Prop := ∃ x ∈ h, ∃ d, x.2 = .lost k d

/-- The mutex of a file is locked while the file is open, and for good when it has not opened. -/
inductive FileMutex (k : LogKind) (h : List (CallStep × LogOut)) (s : CallState) : Prop
  | closed (howner : s.owner (.file k) = none) (hfd : s.fd k = false) (hlost : ¬ Lost k h)
  | opened (howner : s.owner (.file k) = some mainThread) (hfd : s.fd k = true)
      (hlost : ¬ Lost k h)
  | kept (howner : s.owner (.file k) = some mainThread) (hfd : s.fd k = false) (hlost : Lost k h)

/-- The places in which `logwrite` has `mutex_`. -/
def WritePoint.holds : WritePoint → Bool
  | .loop => true
  | .file d => LogKind.ofLevel d.level = .debug
  | .outside | .debug _ | .again => false

/-- Who has which mutex.  Only the low priority task has one in two functions. -/
structure CallInv (h : List (CallStep × LogOut)) (s : CallState) : Prop where
  logFile : s.owner .logFile = if s.point.holds = true then some mainThread else none
  file : ∀ k, FileMutex k h s
  closed : ∀ d, s.point = .file d → s.fd (.ofLevel d.level) = false
  debug : ∀ d, s.point = .debug d → LogKind.ofLevel d.level = .debug
  level : ∀ d, s.point = .file d → LogKind.ofLevel d.level = .debug → d.level ∈ s.fc
  asked : s.asked.isSome = true → s.owner .statement ≠ none
  apart : s.owner .statement = some mainThread → s.point = .outside

theorem lost_concat_iff {k : LogKind} :
    Lost k (h ++ [(a, e)]) ↔ Lost k h ∨ ∃ d, e = .lost k d := by
  constructor
  · rintro ⟨x, hx, d, hd⟩
    rcases List.mem_append.mp hx with hx | hx
    · exact .inl ⟨x, hx, d, hd⟩
    · obtain rfl := List.mem_singleton.mp hx
      exact .inr ⟨d, hd⟩
  · rintro (⟨x, hx, d, hd⟩ | ⟨d, hd⟩)
    · exact ⟨x, List.mem_append_left _ hx, d, hd⟩
    · exact ⟨_, List.mem_append_right _ List.mem_cons_self, d, hd⟩

/-- A step that is not about this file. -/
theorem FileMutex.frame {k : LogKind} (hI : FileMutex k h s)
    (howner : s'.owner (.file k) = s.owner (.file k)) (hfd : s'.fd k = s.fd k)
    (he : ∀ d, e ≠ .lost k d) : FileMutex k (h ++ [(a, e)]) s' := by
  have hlost : Lost k (h ++ [(a, e)]) ↔ Lost k h :=
    lost_concat_iff.trans (or_iff_left fun ⟨d, hd⟩ => he d hd)
  cases hI with
  | closed ho hf hl => exact .closed (howner.trans ho) (hfd.trans hf) (mt hlost.mp hl)
  | opened ho hf hl => exact .opened (howner.trans ho) (hfd.trans hf) (mt hlost.mp hl)
  | kept ho hf hl => exact .kept (howner.trans ho) (hfd.trans hf) (hlost.mpr hl)

theorem FileMutex.close {k : LogKind} (hI : FileMutex k h s) :
    FileMutex k (h ++ [(a, .none)]) s.close := by
  have hlost : Lost k (h ++ [(a, .none)]) ↔ Lost k h :=
    lost_concat_iff.trans (or_iff_left (by simp))
  cases hI with
  | closed ho hf hl => exact .closed (by simp [CallState.close, ho]) rfl (mt hlost.mp hl)
  | opened ho hf hl => exact .closed (by simp [CallState.close, hf]) rfl (mt hlost.mp hl)
  -- the mutex of a file that has not opened is not unlocked
  | kept ho hf hl => exact .kept (by simp [CallState.close, ho, hf]) rfl (hlost.mpr hl)

theorem owner_lockFile (opens : Bool) (d : LogData) (s : CallState) :
    (s.lockFile opens d).1.owner =
      Function.update
        (if LogKind.ofLevel d.level = .debug then Function.update s.owner .logFile none
          else s.owner) (.file (.ofLevel d.level)) (some mainThread) := rfl

/-- The file of the message is opened under its mutex. -/
theorem FileMutex.lockFile {d : LogData} {opens : Bool}
    (hI : FileMutex (.ofLevel d.level) h s) (hfree : s.owner (.file (.ofLevel d.level)) = none) :
    FileMutex (.ofLevel d.level) (h ++ [(a, (s.lockFile opens d).2)]) (s.lockFile opens d).1 := by
  have howner : (s.lockFile opens d).1.owner (.file (.ofLevel d.level)) = some mainThread := by
    rw [owner_lockFile, Function.update_self]
  have hfd : (s.lockFile opens d).1.fd (.ofLevel d.level) = opens := Function.update_self ..
  cases hI with
  | closed ho hf hl =>
    cases opens with
    | true =>
      refine .opened howner hfd fun hlost => ?_
      rcases lost_concat_iff.mp hlost with hlost | ⟨d', hd'⟩
      · exact hl hlost
      · contradiction
    | false => exact .kept howner hfd (lost_concat_iff.mpr (.inr ⟨d, rfl⟩))
  | opened ho => exact absurd (ho.symm.trans hfree) nofun
  | kept ho => exact absurd (ho.symm.trans hfree) nofun

theorem callInv_init : CallInv [] calls.init where
  logFile := rfl
  file _ := .closed rfl rfl (by simp [Lost])
  closed _ := nofun
  debug _ := nofun
  level _ := nofun
  asked := nofun
  apart _ := rfl

theorem CallInv.step (hI : CallInv h s) (hs : calls.step s a = .ok (s', e)) :
    CallInv (h ++ [(a, e)]) s' := by
  obtain ⟨hgrant, heffect⟩ := callEffect hs
  obtain ⟨hlog, hfile, hclosed, hdebug, hlevel, hasked, hapart⟩ := hI
  cases heffect with
  | quiet hthread ha howner hasked' hpoint hfd hfc he =>
    constructor
    · rw [howner, hpoint, hlog]
    · exact fun k => (hfile k).frame (by rw [howner]) (by rw [hfd]) (he k)
    · rwa [hpoint, hfd]
    · rwa [hpoint]
    · -- the levels are changed under `mutex_`, which the task has on its way to the debug file
      intro d hd hk
      rw [hpoint] at hd
      rcases hfc with hfc | hask
      · rw [hfc]
        exact hlevel d hd hk
      · rw [hask, Option.bind_some, hlog, hd] at hgrant
        simp [WritePoint.holds, hk] at hgrant
    · rwa [hasked', howner]
    · rwa [howner, hpoint]
  | lock2 t hfree howner hasked' hpoint hfd hfc =>
    constructor
    · rw [howner, hpoint, ← hlog]
      rfl
    · exact fun k => (hfile k).frame (by rw [howner]; rfl) (by rw [hfd]) nofun
    · rwa [hpoint, hfd]
    · rwa [hpoint]
    · rwa [hpoint, hfc]
    · rw [howner, Function.update_self]
      exact fun _ => nofun
    · rw [howner, hpoint, Function.update_self]
      exact fun ht => hfree.2 (Option.some.inj ht)
  | isDebugFc t hin ht howner hasked' hpoint hfd hfc =>
    constructor
    · rw [howner, hpoint, hlog]
    · exact fun k => (hfile k).frame (by rw [howner]) (by rw [hfd]) nofun
    · rwa [hpoint, hfd]
    · rwa [hpoint]
    · rwa [hpoint, hfc]
    · rw [hasked']
      exact nofun
    · rwa [howner, hpoint]
  | endlog t strd hspeaks howner hasked' hpoint hfd hfc he =>
    constructor
    · rw [howner, hpoint, ← hlog]
      rfl
    · exact fun k => (hfile k).frame (by rw [howner]; rfl) (by rw [hfd]) (he k)
    · rwa [hpoint, hfd]
    · rwa [hpoint]
    · rwa [hpoint, hfc]
    · rw [hasked', hspeaks.1]
      exact nofun
    · rw [howner, Function.update_self]
      exact nofun
  | lockLoop hcalled howner hasked' hpoint hfd =>
    constructor
    · rw [howner, hpoint, Function.update_self]
      rfl
    · exact fun k => (hfile k).frame (by rw [howner]; rfl) (by rw [hfd]) nofun
    · rw [hpoint]
      exact nofun
    · rw [hpoint]
      exact nofun
    · rw [hpoint]
      exact nofun
    · rw [hasked', howner]
      exact hasked
    · rw [howner]
      intro hmain
      -- the task does not begin `logwrite` in the middle of a statement
      rcases hcalled with ⟨-, hne⟩ | hat
      · exact absurd hmain hne
      · exact absurd (hat.symm.trans (hapart hmain)) nofun
  | close hat =>
    constructor
    · rfl
    · exact fun k => (hfile k).close
    · exact nofun
    · exact nofun
    · exact nofun
    · exact hasked
    · exact fun _ => rfl
  | entry d hat howner hasked' hpoint hfd he =>
    constructor
    · rw [howner, Function.update_self]
      rcases hpoint with ⟨hp, -⟩ | hp | ⟨hp, hne, -⟩
      · rw [hp]
        rfl
      · rw [hp]
        rfl
      · simp [hp, WritePoint.holds, hne]
    · exact fun k => (hfile k).frame (by rw [howner]; rfl) (by rw [hfd]) (he k)
    · intro d' hd'
      rcases hpoint with ⟨hp, -⟩ | hp | ⟨hp, -, hf⟩
      · exact absurd (hp.symm.trans hd') nofun
      · exact absurd (hp.symm.trans hd') nofun
      · obtain rfl := WritePoint.file.inj (hp.symm.trans hd')
        rwa [hfd]
    · intro d' hd'
      rcases hpoint with ⟨hp, hk⟩ | hp | ⟨hp, -, -⟩
      · obtain rfl := WritePoint.debug.inj (hp.symm.trans hd')
        exact hk
      · exact absurd (hp.symm.trans hd') nofun
      · exact absurd (hp.symm.trans hd') nofun
    · intro d' hd' hk
      rcases hpoint with ⟨hp, -⟩ | hp | ⟨hp, hne, -⟩
      · exact absurd (hp.symm.trans hd') nofun
      · exact absurd (hp.symm.trans hd') nofun
      · obtain rfl := WritePoint.file.inj (hp.symm.trans hd')
        contradiction
    · rw [hasked', howner]
      exact hasked
    · rw [howner]
      exact fun hmain => absurd (hat.symm.trans (hapart hmain)) nofun
  | passed d hat howner hasked' hpoint hfd he =>
    constructor
    · rw [howner, hpoint, hlog, hat]
      rfl
    · exact fun k => (hfile k).frame (by rw [howner]) (by rw [hfd]) (he k)
    · rw [hpoint]
      exact nofun
    · rw [hpoint]
      exact nofun
    · rw [hpoint]
      exact nofun
    · rwa [hasked', howner]
    · rw [howner]
      exact fun hmain => absurd (hat.symm.trans (hapart hmain)) nofun
  | lockDebug d hat howner hasked' hpoint hfd hf hmem =>
    have hk := hdebug d hat
    constructor
    · rw [howner, Function.update_self, hpoint]
      simp [WritePoint.holds, hk]
    · exact fun k => (hfile k).frame (by rw [howner]; rfl) (by rw [hfd]) nofun
    · intro d' hd'
      obtain rfl := WritePoint.file.inj (hpoint.symm.trans hd')
      rw [hfd, hk, hf]
    · rw [hpoint]
      exact nofun
    · intro d' hd' _
      obtain rfl := WritePoint.file.inj (hpoint.symm.trans hd')
      exact hmem
    · rw [hasked', howner]
      exact hasked
    · rw [howner]
      exact fun hmain => absurd (hat.symm.trans (hapart hmain)) nofun
  | lockFile d opens hat =>
    have hother : ∀ x, x ≠ .logFile → x ≠ .file (.ofLevel d.level) →
        (s.lockFile opens d).1.owner x = s.owner x := by
      intro x hx hx'
      rw [owner_lockFile, Function.update_of_ne hx']
      split
      · rw [Function.update_of_ne hx]
      · rfl
    constructor
    · rw [owner_lockFile, Function.update_of_ne (by simp)]
      show _ = none
      split
      · rw [Function.update_self]
      · next hk => simpa [hat, WritePoint.holds, hk] using hlog
    · intro k
      by_cases hk : k = .ofLevel d.level
      · rw [hk]
        exact (hfile _).lockFile hgrant
      · refine (hfile k).frame (hother _ (by simp) (by simpa using hk)) ?_ fun d' => ?_
        · exact Function.update_of_ne hk ..
        · show (if opens = true then LogOut.wrote _ d else .lost _ d) ≠ _
          split
          · exact nofun
          · exact fun heq => hk (LogOut.lost.inj heq).1.symm
    · exact nofun
    · exact nofun
    · exact nofun
    · rw [hother _ (by simp) (by simp)]
      exact hasked
    · rw [hother _ (by simp) (by simp)]
      exact fun hmain => absurd (hat.symm.trans (hapart hmain)) nofun

theorem callInv_reached (hr : calls.Reaches h s) : CallInv h s :=
  hr.invariant (I := CallInv) _ callInv_init fun _ _ _ _ _ _ hI hs => hI.step hs

/-! ## The threads that wait -/

theorem CallInv.waits_of_speaks (hI : CallInv h s) {t : ℕ} (ht : s.Speaks t) :
    s.waits t = none := by
  rw [CallState.waits, if_neg (by simp [ht.1])]
  split
  · next hmain => rw [hI.apart (hmain ▸ ht.2), WritePoint.waits]
  · rfl

/-- In `logwrite` the low priority task is in no statement. -/
theorem CallInv.waits_main (hI : CallInv h s) (hpoint : s.point ≠ .outside) :
    s.waits mainThread = s.point.waits := by
  rw [CallState.waits, if_neg fun hmain => hpoint (hI.apart hmain.2), if_pos rfl]

/-- Only the low priority task has other mutexes than that of the statements. -/
theorem CallInv.main_of_owner (hI : CallInv h s) {x : LogMutex} {t : ℕ} (hx : x ≠ .statement)
    (ho : s.owner x = some t) : t = mainThread := by
  cases x with
  | statement => contradiction
  | logFile =>
    rw [hI.logFile] at ho
    split at ho
    · exact (Option.some.inj ho).symm
    · contradiction
  | file k =>
    cases hI.file k with
    | closed hnone => exact absurd (hnone.symm.trans ho) nofun
    | opened hmain => exact Option.some.inj (ho.symm.trans hmain)
    | kept hmain => exact Option.some.inj (ho.symm.trans hmain)

theorem calls_granted {x : LogMutex} (hs : calls.step s a = .ok (s', e))
    (ha : a.asks = some x) : s.owner x = none := by
  have hgrant := (callEffect hs).1
  rwa [ha] at hgrant

/-- A thread that waits for a mutex goes on with its lock. -/
theorem calls_waited {x : LogMutex} (hr : calls.Reaches h s) (hs : calls.step s a = .ok (s', e))
    (hx : s.waits a.thread = some x) : a.asks = some x := by
  have hI := callInv_reached hr
  cases (callEffect hs).2 with
  | quiet hthread =>
    rcases hthread with hfree | hspeaks
    · exact absurd (hfree.1.symm.trans hx) nofun
    · exact absurd ((hI.waits_of_speaks hspeaks).symm.trans hx) nofun
  | lock2 t hfree => exact absurd (hfree.1.symm.trans hx) nofun
  | isDebugFc t hin ht => rwa [CallStep.thread, CallState.waits, if_pos ⟨hin, ht⟩] at hx
  | endlog t strd hspeaks => exact absurd ((hI.waits_of_speaks hspeaks).symm.trans hx) nofun
  | lockLoop hcalled =>
    rcases hcalled with ⟨hfree, -⟩ | hat
    · exact absurd (hfree.1.symm.trans hx) nofun
    · rwa [CallStep.thread, hI.waits_main (by simp [hat]), hat] at hx
  | close hat =>
    rw [CallStep.thread, hI.waits_main (by simp [hat]), hat] at hx
    contradiction
  | entry d hat =>
    rw [CallStep.thread, hI.waits_main (by simp [hat]), hat] at hx
    contradiction
  | passed d hat => rwa [CallStep.thread, hI.waits_main (by simp [hat]), hat] at hx
  | lockDebug d hat => rwa [CallStep.thread, hI.waits_main (by simp [hat]), hat] at hx
  | lockFile d opens hat => rwa [CallStep.thread, hI.waits_main (by simp [hat]), hat] at hx

theorem waits_congr {t : ℕ} (hasked : (s'.asked.isSome = true ∧ s'.owner .statement = some t) ↔
    s.asked.isSome = true ∧ s.owner .statement = some t)
    (hpoint : t = mainThread → s'.point = s.point) : s'.waits t = s.waits t := by
  rw [CallState.waits, CallState.waits]
  simp only [hasked]
  split
  · rfl
  · split
    · next hmain => rw [hpoint hmain]
    · rfl

/-- What the other threads wait for stays. -/
theorem calls_waits_frame {t : ℕ} (hs : calls.step s a = .ok (s', e)) (ht : t ≠ a.thread) :
    s'.waits t = s.waits t := by
  obtain ⟨hgrant, heffect⟩ := callEffect hs
  cases heffect with
  | quiet hthread ha howner hasked hpoint =>
    exact waits_congr (by rw [howner, hasked]) fun _ => hpoint
  | lock2 t' hfree howner hasked hpoint =>
    -- the other thread cannot have the mutex before, and not behind the step
    have hne : t' ≠ t := fun heq => ht heq.symm
    have hnone : s.owner .statement = none := hgrant
    exact waits_congr (by simp [howner, hnone, hne]) fun _ => hpoint
  | isDebugFc t' hin ht' howner hasked hpoint =>
    have hne : t' ≠ t := fun heq => ht heq.symm
    exact waits_congr (by simp [hasked, ht', hne]) fun _ => hpoint
  | endlog t' strd hspeaks howner hasked hpoint =>
    exact waits_congr (by simp [hasked, hspeaks.1]) fun _ => hpoint
  | lockLoop hcalled howner hasked =>
    exact waits_congr (by rw [howner, hasked]; rfl) fun hmain => absurd hmain ht
  | close hat => exact waits_congr Iff.rfl fun hmain => absurd hmain ht
  | entry d hat howner hasked =>
    exact waits_congr (by rw [howner, hasked]; rfl) fun hmain => absurd hmain ht
  | passed d hat howner hasked =>
    exact waits_congr (by rw [howner, hasked]) fun hmain => absurd hmain ht
  | lockDebug d hat howner hasked =>
    exact waits_congr (by rw [howner, hasked]; rfl) fun hmain => absurd hmain ht
  | lockFile d opens hat =>
    refine waits_congr ?_ fun hmain => absurd hmain ht
    rw [owner_lockFile, Function.update_of_ne (by simp)]
    split
    · rfl
    · rfl

/-- A thread unlocks only what it has locked. -/
theorem calls_owner_frame {t : ℕ} {x : LogMutex} (hr : calls.Reaches h s)
    (hs : calls.step s a = .ok (s', e)) (ht : t ≠ a.thread) (hx : s.owner x = some t) :
    s'.owner x = some t := by
  have hI := callInv_reached hr
  obtain ⟨hgrant, heffect⟩ := callEffect hs
  -- a step of the low priority task leaves the mutex of the statements
  have hmain : a.thread = mainThread → s'.owner .statement = s.owner .statement →
      s'.owner x = some t := by
    intro ha hsame
    obtain rfl : x = .statement := by
      by_contra hne
      exact ht ((hI.main_of_owner hne hx).trans ha.symm)
    rw [hsame, hx]
  cases heffect with
  | quiet hthread ha howner => rw [howner, hx]
  | lock2 t' hfree howner =>
    have hne : x ≠ .statement := fun heq => absurd ((heq ▸ hx).symm.trans hgrant) nofun
    rw [howner, Function.update_of_ne hne, hx]
  | isDebugFc t' hin ht' howner => rw [howner, hx]
  | endlog t' strd hspeaks howner =>
    have hne : x ≠ .statement := by
      rintro rfl
      exact ht (Option.some.inj (hx.symm.trans hspeaks.2))
    rw [howner, Function.update_of_ne hne, hx]
  | lockLoop hcalled howner => exact hmain rfl (by rw [howner]; rfl)
  | close hat => exact hmain rfl rfl
  | entry d hat howner => exact hmain rfl (by rw [howner]; rfl)
  | passed d hat howner => exact hmain rfl (by rw [howner])
  | lockDebug d hat howner => exact hmain rfl (by rw [howner]; rfl)
  | lockFile d opens hat =>
    refine hmain rfl ?_
    rw [owner_lockFile, Function.update_of_ne (by simp)]
    split
    · rfl
    · rfl

/-- The threads and the mutexes of the log system. -/
def callMutexes : Mutexes calls ℕ LogMutex where
  thread := CallStep.thread
  asks := CallStep.asks
  owner := CallState.owner
  waits := CallState.waits
  granted _ := calls_granted
  waited := calls_waited
  waits_frame _ := calls_waits_frame
  owner_frame := calls_owner_frame

end

end Tacppd
