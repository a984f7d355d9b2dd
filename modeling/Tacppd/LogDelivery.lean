/-
# The way of a message

A message is made of the pieces of one statement, whoever else logs at the time, but its level is
the last one that any thread has stored (`messages_composed`).

The log file writes the messages of a level in their order.  When one of its files cannot be opened
the message is lost and the mutex of the file stays locked, so that the task of low priority stops
at the next message for this file (`log_file_conserves`).
-/
import Tacppd.Logging

namespace Tacppd

/-! ## What a statement puts out -/

/-- The level that is stored after some steps. -/
def levelAfter (level : ℤ) (h : List (LogStep × LogOut)) : ℤ :=
  h.foldl (fun level x =>
    match x.1 with
    | .setLevel _ new => new
    | _ => level) level

/-- The pieces that some steps put behind one another. -/
def spoken (h : List (LogStep × LogOut)) : Bytes :=
  h.flatMap fun x =>
    match x.1 with
    | .put _ piece => piece
    | _ => []

/-- The thread that needs the mutex of the statements for a step. -/
def speaker : LogStep → Option ℕ
  | .acquire t | .put t _ | .endlog t _ => some t
  | _ => none

/-- The variables of the statement that a thread is in: the mutex, the text, and whether it will be
shown. -/
def statement (s : LogState) : Option ℕ × Bytes × Bool := (s.mutex2, s.sbuf, s.present)

/-- What a step does to them, and to the level. -/
inductive StatementStep (s s' : LogState) : LogStep → LogOut → Prop
  | setLevel (t : ℕ) (level : ℤ) (hlevel : s'.log2_level = level)
      (hstate : statement s' = statement s) : StatementStep s s' (.setLevel t level) .none
  | acquire (t : ℕ) (hfree : s.mutex2 = none) (hlevel : s'.log2_level = s.log2_level)
      (hstate : statement s' = (some t, s.sbuf, decide (s.log2_level ∈ s.fc))) :
      StatementStep s s' (.acquire t) .none
  | put (t : ℕ) (piece : Bytes) (hmutex : s.mutex2 = some t)
      (hlevel : s'.log2_level = s.log2_level)
      (hstate : statement s' = (some t, s.sbuf ++ piece, s.present)) :
      StatementStep s s' (.put t piece) .none
  | endlog (t : ℕ) (strd : Bytes) (hmutex : s.mutex2 = some t)
      (hlevel : s'.log2_level = s.log2_level) (hstate : statement s' = (none, [], false)) :
      StatementStep s s' (.endlog t strd) (outMsg strd s.toLogVars).2
  | other {a : LogStep} {e : LogOut} (ha : speaker a = none)
      (hlevel : s'.log2_level = levelAfter s.log2_level [(a, e)])
      (hstate : statement s' = statement s) (hput : spoken [(a, e)] = []) : StatementStep s s' a e

section

variable {s s' : LogState} {a : LogStep} {e : LogOut} {h : List (LogStep × LogOut)}

theorem termAdd_statement {fh : ℕ} (hs : logging.step s (.termAdd fh) = .ok (s', e)) :
    s'.log2_level = s.log2_level ∧ statement s' = statement s := by
  obtain ⟨⟨v, e'⟩, hadd, heq⟩ := of_map_ok hs
  obtain ⟨rfl, rfl⟩ := Prod.mk.inj heq
  rcases termAdd_cases hadd with ⟨rfl, rfl⟩ | ⟨num, -, -, rfl, rfl⟩
  · exact ⟨rfl, rfl⟩
  · exact ⟨rfl, rfl⟩

theorem termDel_statement (fh : ℕ) (s : LogState) :
    (termDel fh s.toLogVars).log2_level = s.log2_level ∧
      statement { s with toLogVars := termDel fh s.toLogVars } = statement s := by
  rw [termDel]
  split <;> exact ⟨rfl, rfl⟩

theorem writeEntry_statement (opens : Bool) (d : LogData) (s : LogState) :
    (writeEntry opens d s).1.log2_level = s.log2_level ∧
      statement (writeEntry opens d s).1 = statement s := by
  rw [writeEntry]
  split
  · exact ⟨rfl, rfl⟩
  · split
    · exact ⟨rfl, rfl⟩
    · split <;> exact ⟨rfl, rfl⟩

theorem writeNext_statement {opens : Bool} (hs : writeNext opens s = .ok (s', e)) :
    s'.log2_level = s.log2_level ∧ statement s' = statement s := by
  rw [writeNext] at hs
  split at hs
  · contradiction
  · split at hs
    · obtain ⟨rfl, rfl⟩ := Prod.mk.inj (Except.ok.inj hs)
      exact ⟨rfl, rfl⟩
    · next d _ _ =>
      have hentry := Except.ok.inj hs
      have hkeep := writeEntry_statement opens d { s with toLogVars := takeEntry s.toLogVars }
      rw [hentry] at hkeep
      exact hkeep

theorem statementStep (hs : logging.step s a = .ok (s', e)) : StatementStep s s' a e := by
  cases a with
  | setLevel t level =>
    obtain ⟨rfl, rfl⟩ := Prod.mk.inj (Except.ok.inj hs)
    exact .setLevel t level rfl rfl
  | acquire t =>
    obtain ⟨⟨hfree, -⟩, rfl, rfl⟩ := of_guard_mk hs
    exact .acquire t hfree rfl rfl
  | put t piece =>
    obtain ⟨hmutex, rfl, rfl⟩ := of_guard_mk hs
    exact .put t piece hmutex rfl (by rw [statement, hmutex])
  | endlog t strd =>
    obtain ⟨hmutex, rfl, rfl⟩ := of_guard_mk hs
    exact .endlog t strd hmutex rfl rfl
  | outLogging strd text =>
    obtain ⟨rfl, rfl⟩ := Prod.mk.inj (Except.ok.inj hs)
    exact .other rfl rfl rfl rfl
  | termAdd fh =>
    have hkeep := termAdd_statement hs
    exact .other rfl hkeep.1 hkeep.2 rfl
  | termDel fh =>
    obtain ⟨rfl, rfl⟩ := Prod.mk.inj (Except.ok.inj hs)
    have hkeep := termDel_statement fh s
    exact .other rfl hkeep.1 hkeep.2 rfl
  | addFc n =>
    obtain ⟨-, rfl, rfl⟩ := of_guard_mk hs
    exact .other rfl rfl rfl rfl
  | delFc n =>
    obtain ⟨-, rfl, rfl⟩ := of_guard_mk hs
    exact .other rfl rfl rfl rfl
  | writeBegin =>
    obtain ⟨-, rfl, rfl⟩ := of_guard_mk hs
    exact .other rfl rfl rfl rfl
  | writeNext opens =>
    have hkeep := writeNext_statement (of_guard_ok hs).2
    exact .other rfl hkeep.1 hkeep.2 rfl

theorem levelAfter_concat (level : ℤ) :
    levelAfter level (h ++ [(a, e)]) = levelAfter (levelAfter level h) [(a, e)] := List.foldl_append

theorem spoken_concat : spoken (h ++ [(a, e)]) = spoken h ++ spoken [(a, e)] :=
  List.flatMap_append

/-- The level is the last one that was stored. -/
theorem log2_level_step (hs : logging.step s a = .ok (s', e)) :
    s'.log2_level = levelAfter s.log2_level [(a, e)] := by
  cases statementStep hs with
  | setLevel t level hlevel => exact hlevel
  | acquire t hfree hlevel => exact hlevel
  | put t piece hmutex hlevel => exact hlevel
  | endlog t strd hmutex hlevel => exact hlevel
  | other ha hlevel => exact hlevel

/-- Outside of the statements there is no text. -/
theorem sbuf_eq_nil (hr : logging.Reaches h s) : s.mutex2 = none → s.sbuf = [] := by
  refine hr.invariant (I := fun _ s => s.mutex2 = none → s.sbuf = []) _ (fun _ => rfl) ?_
  intro h s a s' e _ hI hs hfree
  cases statementStep hs with
  | setLevel t level hlevel hstate =>
    obtain ⟨hmutex, hrest⟩ := Prod.mk.inj hstate
    rw [(Prod.mk.inj hrest).1, hI (hmutex ▸ hfree)]
  | acquire t _ hlevel hstate => exact absurd ((Prod.mk.inj hstate).1.symm.trans hfree) nofun
  | put t piece hmutex hlevel hstate =>
    exact absurd ((Prod.mk.inj hstate).1.symm.trans hfree) nofun
  | endlog t strd hmutex hlevel hstate => exact (Prod.mk.inj (Prod.mk.inj hstate).2).1
  | other ha hlevel hstate =>
    obtain ⟨hmutex, hrest⟩ := Prod.mk.inj hstate
    rw [(Prod.mk.inj hrest).1, hI (hmutex ▸ hfree)]

/-- What holds while the thread `t` has not ended its statement: nobody else has spoken. -/
structure InStatement (t : ℕ) (present : Bool) (level : ℤ) (mid : List (LogStep × LogOut))
    (s : LogState) : Prop where
  level : s.log2_level = levelAfter level mid
  state : statement s = (some t, spoken mid, present)
  alone : ∀ x ∈ mid, ∀ t', speaker x.1 = some t' → ∃ piece, x.1 = .put t piece

theorem InStatement.step {t : ℕ} {present : Bool} {level : ℤ} (hI : InStatement t present level h s)
    (ha : ∀ strd, a ≠ .endlog t strd) (hs : logging.step s a = .ok (s', e)) :
    InStatement t present level (h ++ [(a, e)]) s' := by
  obtain ⟨hlevel, hstate, halone⟩ := hI
  have hmutex : s.mutex2 = some t := (Prod.mk.inj hstate).1
  obtain ⟨hsbuf, hpresent⟩ := Prod.mk.inj (Prod.mk.inj hstate).2
  have hconcat : (∀ t', speaker a = some t' → ∃ piece, a = .put t piece) →
      ∀ x ∈ h ++ [(a, e)], ∀ t', speaker x.1 = some t' → ∃ piece, x.1 = .put t piece := by
    intro hlast x hx
    rcases List.mem_append.mp hx with hx | hx
    · exact halone x hx
    · rwa [List.mem_singleton.mp hx]
  have hlevel' : s'.log2_level = levelAfter level (h ++ [(a, e)]) := by
    rw [levelAfter_concat, ← hlevel, log2_level_step hs]
  cases statementStep hs with
  | setLevel t' level' _ hstate' =>
    refine ⟨hlevel', ?_, hconcat nofun⟩
    rw [hstate', hstate, spoken_concat]
    simp [spoken]
  | acquire t' hfree => exact absurd (hfree.symm.trans hmutex) nofun
  | put t' piece hmutex' _ hstate' =>
    obtain rfl := Option.some.inj (hmutex.symm.trans hmutex')
    refine ⟨hlevel', ?_, hconcat fun _ _ => ⟨piece, rfl⟩⟩
    rw [hstate', hsbuf, hpresent, spoken_concat]
    simp [spoken]
  | endlog t' strd hmutex' =>
    obtain rfl := Option.some.inj (hmutex.symm.trans hmutex')
    exact absurd rfl (ha strd)
  | other hnone _ hstate' hput =>
    refine ⟨hlevel', ?_, hconcat fun t' ht' => absurd (hnone.symm.trans ht') nofun⟩
    rw [hstate', hstate, spoken_concat, hput, List.append_nil]

/-- **A message is the pieces of its statement**, and nobody else speaks meanwhile; but whether it
is put out, and with which level, is said by the level that any thread has stored last before the
mutex was taken, and before the end. -/
theorem messages_composed {pre gap mid : List (LogStep × LogOut)} {t : ℕ} {level : ℤ} {strd : Bytes}
    {e₁ e₂ : LogOut}
    (hr : logging.Reaches (pre ++ (.setLevel t level, e₁) :: gap ++ (.acquire t, e₂) :: mid ++
      [(.endlog t strd, e)]) s)
    (hmid : ∀ x ∈ mid, ∀ strd, x.1 ≠ .endlog t strd) :
    (∀ x ∈ mid, ∀ t', speaker x.1 = some t' → ∃ piece, x.1 = .put t piece) ∧
      ∃ s₁, logging.Reaches (pre ++ (.setLevel t level, e₁) :: gap) s₁ ∧
        e = if levelAfter level gap ∈ s₁.fc ∧ cstr (spoken mid) ≠ [] then
          .message (.new strd (levelAfter level (gap ++ mid)) (cstr (spoken mid)))
        else .none := by
  obtain ⟨s₃, s₄, hmids, hend⟩ := hr.of_append
  obtain ⟨s₁, s₂, hgap, hacq⟩ := hmids.of_append
  obtain ⟨s₀, hpre⟩ : ∃ s₀, logging.Reaches (pre ++ [(.setLevel t level, e₁)]) s₀ := by
    rw [← List.singleton_append, ← List.append_assoc] at hgap
    exact hgap.exists_prefix
  have hgap' : logging.Reaches (pre ++ [(.setLevel t level, e₁)] ++ gap) s₁ := by
    rwa [List.append_assoc, List.singleton_append]
  -- the level when the mutex is taken
  have hlevel₀ : s₀.log2_level = level := by
    obtain ⟨s₅, s₆, hr₅, hset⟩ := hpre.of_append
    obtain rfl := (hr₅.step hset).unique logging hpre
    exact log2_level_step hset
  have hlevel₁ : s₁.log2_level = levelAfter level gap := by
    refine hpre.segment logging (I := fun mid s => s.log2_level = levelAfter level mid) hlevel₀ ?_
      hgap'
    intro mid s a s' e _ hI hs
    rw [log2_level_step hs, hI, ← levelAfter_concat]
  -- the statement begins
  have hbegin : InStatement t (decide (s₁.log2_level ∈ s₁.fc)) s₁.log2_level [] s₂ := by
    cases statementStep hacq with
    | acquire _ hfree hlevel hstate =>
      refine ⟨hlevel, ?_, by simp⟩
      rw [hstate, sbuf_eq_nil hgap hfree]
      rfl
    | other ha => contradiction
  have hmids' : logging.Reaches (pre ++ (.setLevel t level, e₁) :: gap ++ [(.acquire t, e₂)] ++ mid)
      s₃ := by
    rwa [List.append_assoc _ [(LogStep.acquire t, e₂)], List.singleton_append]
  have hin : InStatement t (decide (s₁.log2_level ∈ s₁.fc)) s₁.log2_level mid s₃ := by
    refine (hgap.step hacq).segment logging (I := fun mid s =>
      (∀ x ∈ mid, ∀ strd, x.1 ≠ .endlog t strd) →
        InStatement t (decide (s₁.log2_level ∈ s₁.fc)) s₁.log2_level mid s) (fun _ => hbegin) ?_
      hmids' hmid
    intro mid s a s' e _ hI hs hmid
    rw [List.forall_mem_append, List.forall_mem_singleton] at hmid
    exact (hI hmid.1).step hmid.2 hs
  refine ⟨hin.alone, s₁, hgap, ?_⟩
  obtain ⟨hsbuf, hpresent⟩ := Prod.mk.inj (Prod.mk.inj hin.state).2
  cases statementStep hend with
  | endlog _ _ hmutex =>
    have hcat : levelAfter (levelAfter level gap) mid = levelAfter level (gap ++ mid) :=
      List.foldl_append.symm
    rw [outMsg, hpresent, hsbuf, hin.level, hlevel₁, hcat]
    simp only [decide_eq_true_eq]
    split <;> rfl
  | other ha => contradiction

end

/-- Two statements: the second thread stores its level before it waits, and the error of the first
one becomes an event. -/
theorem messages_composed_overlap : ∃ s₁ : LogState,
    LogOut.message ⟨253, str "[] disk full"⟩ =
      if levelAfter 0 [] ∈ s₁.fc ∧ str "disk full" ≠ [] then
        .message (.new (str "[] ") 253 (str "disk full"))
      else .none := by
  have hr := logging.reaches_history [.setLevel 1 0, .acquire 1, .put 1 (str "disk "),
    .setLevel 2 253, .put 1 (str "full"), .endlog 1 (str "[] ")]
  obtain ⟨-, s₁, -, he⟩ := @messages_composed _ (.message ⟨253, str "[] disk full"⟩) [] []
    [(.put 1 (str "disk "), .none), (.setLevel 2 253, .none), (.put 1 (str "full"), .none)] 1 0
    (str "[] ") .none .none hr (by simp)
  exact ⟨s₁, he⟩

/-! ## The files -/

/-- What becomes of an entry that is for a file. -/
inductive EntryFate
  | wrote
  | lost
  | stuck
  deriving DecidableEq, Repr

/-- What has become of the entries for one of the files, in their order. -/
def entryFates (k : LogKind) (h : List (LogStep × LogOut)) : List (EntryFate × LogData) :=
  h.filterMap fun x =>
    match x.2 with
    | .wrote k' d => if k' = k then some (.wrote, d) else none
    | .lost k' d => if k' = k then some (.lost, d) else none
    | .stuck d => if LogKind.ofLevel d.level = k then some (.stuck, d) else none
    | _ => none

/-- What a step does to the files and to the low priority task. -/
inductive FileStep (s s' : LogState) : LogStep → LogOut → Prop
  | quiet {a : LogStep} {e : LogOut} (hfd : s'.fd = s.fd) (hlocked : s'.locked = s.locked)
      (hfile : s'.fileLocked = s.fileLocked)
      (hwriter : s'.writer = s.writer ∨ s.writer = .idle ∧ s'.writer = .running)
      (he : taken [(a, e)] = [] ∧ ∀ k, entryFates k [(a, e)] = []) : FileStep s s' a e
  | dropped (opens : Bool) (d : LogData) (hrun : s.writer = .running)
      (hkind : LogKind.ofLevel d.level = .debug) (hfc : d.level ∉ s.fc) (hfd : s'.fd = s.fd)
      (hlocked : s'.locked = s.locked) (hfile : s'.fileLocked = s.fileLocked)
      (hwriter : s'.writer = s.writer) : FileStep s s' (.writeNext opens) (.dropped d)
  | ends (opens : Bool) (hrun : s.writer = .running) (hfd : s'.fd = fun _ => false)
      (hlocked : s'.locked = fun k => s.locked k && !s.fd k) (hfile : s'.fileLocked = s.fileLocked)
      (hwriter : s'.writer = .idle) : FileStep s s' (.writeNext opens) .none
  | wrote (opens : Bool) (d : LogData) (hrun : s.writer = .running)
      (hopen : s.fd (.ofLevel d.level) = true) (hfd : s'.fd = s.fd) (hlocked : s'.locked = s.locked)
      (hfile : s'.fileLocked = s.fileLocked) (hwriter : s'.writer = s.writer) :
      FileStep s s' (.writeNext opens) (.wrote (.ofLevel d.level) d)
  | opened (opens : Bool) (d : LogData) (hrun : s.writer = .running)
      (hfree : s.locked (.ofLevel d.level) = false)
      (hfd : s'.fd = Function.update s.fd (.ofLevel d.level) opens)
      (hlocked : s'.locked = Function.update s.locked (.ofLevel d.level) true)
      (hfile : s'.fileLocked = s.fileLocked) (hwriter : s'.writer = s.writer) :
      FileStep s s' (.writeNext opens)
        (if opens then .wrote (.ofLevel d.level) d else .lost (.ofLevel d.level) d)
  | stuck (opens : Bool) (d : LogData) (hrun : s.writer = .running)
      (hclosed : s.fd (.ofLevel d.level) = false) (hheld : s.locked (.ofLevel d.level) = true)
      (hfd : s'.fd = s.fd) (hlocked : s'.locked = s.locked)
      (hfile : s'.fileLocked = decide (LogKind.ofLevel d.level = .debug))
      (hwriter : s'.writer = .stuck d) : FileStep s s' (.writeNext opens) (.stuck d)

section

variable {s s' : LogState} {a : LogStep} {e : LogOut} {h : List (LogStep × LogOut)}

theorem fileStep_writeNext {opens : Bool} (hrun : s.writer = .running)
    (hs : writeNext opens s = .ok (s', e)) : FileStep s s' (.writeNext opens) e := by
  rw [writeNext] at hs
  split at hs
  · contradiction
  · split at hs
    · obtain ⟨rfl, rfl⟩ := Prod.mk.inj (Except.ok.inj hs)
      exact .ends opens hrun rfl rfl rfl rfl
    · next d rest hlogs =>
      have hentry := Except.ok.inj hs
      rw [writeEntry] at hentry
      split at hentry
      · next hdrop =>
        obtain ⟨rfl, rfl⟩ := Prod.mk.inj hentry
        exact .dropped opens d hrun hdrop.1 hdrop.2 rfl rfl rfl rfl
      · split at hentry
        · next hopen =>
          obtain ⟨rfl, rfl⟩ := Prod.mk.inj hentry
          exact .wrote opens d hrun hopen rfl rfl rfl rfl
        · next hclosed =>
          split at hentry
          · next hheld =>
            obtain ⟨rfl, rfl⟩ := Prod.mk.inj hentry
            exact .stuck opens d hrun (Bool.eq_false_iff.mpr hclosed) hheld rfl rfl rfl rfl
          · next hfree =>
            obtain ⟨rfl, rfl⟩ := Prod.mk.inj hentry
            exact .opened opens d hrun (Bool.eq_false_iff.mpr hfree) rfl rfl rfl rfl

theorem fileStep (hs : logging.step s a = .ok (s', e)) : FileStep s s' a e := by
  cases a with
  | setLevel t level =>
    obtain ⟨rfl, rfl⟩ := Prod.mk.inj (Except.ok.inj hs)
    exact .quiet rfl rfl rfl (.inl rfl) ⟨rfl, fun _ => rfl⟩
  | acquire t =>
    obtain ⟨-, rfl, rfl⟩ := of_guard_mk hs
    exact .quiet rfl rfl rfl (.inl rfl) ⟨rfl, fun _ => rfl⟩
  | put t piece =>
    obtain ⟨-, rfl, rfl⟩ := of_guard_mk hs
    exact .quiet rfl rfl rfl (.inl rfl) ⟨rfl, fun _ => rfl⟩
  | endlog t strd =>
    obtain ⟨-, rfl, rfl⟩ := of_guard_mk hs
    rw [outMsg]
    split
    · exact .quiet rfl rfl rfl (.inl rfl) ⟨rfl, fun _ => rfl⟩
    · exact .quiet rfl rfl rfl (.inl rfl) ⟨rfl, fun _ => rfl⟩
  | outLogging strd text =>
    obtain ⟨rfl, rfl⟩ := Prod.mk.inj (Except.ok.inj hs)
    exact .quiet rfl rfl rfl (.inl rfl) ⟨rfl, fun _ => rfl⟩
  | termAdd fh =>
    obtain ⟨⟨v, e'⟩, hadd, heq⟩ := of_map_ok hs
    obtain ⟨rfl, rfl⟩ := Prod.mk.inj heq
    rcases termAdd_cases hadd with ⟨rfl, rfl⟩ | ⟨num, -, -, rfl, rfl⟩
    · exact .quiet rfl rfl rfl (.inl rfl) ⟨rfl, fun _ => rfl⟩
    · exact .quiet rfl rfl rfl (.inl rfl) ⟨rfl, fun _ => rfl⟩
  | termDel fh =>
    obtain ⟨rfl, rfl⟩ := Prod.mk.inj (Except.ok.inj hs)
    have hfd : (termDel fh s.toLogVars).fd = s.fd := by
      rw [termDel]
      split <;> rfl
    exact .quiet hfd rfl rfl (.inl rfl) ⟨rfl, fun _ => rfl⟩
  | addFc n =>
    obtain ⟨-, rfl, rfl⟩ := of_guard_mk hs
    exact .quiet rfl rfl rfl (.inl rfl) ⟨rfl, fun _ => rfl⟩
  | delFc n =>
    obtain ⟨-, rfl, rfl⟩ := of_guard_mk hs
    exact .quiet rfl rfl rfl (.inl rfl) ⟨rfl, fun _ => rfl⟩
  | writeBegin =>
    obtain ⟨hidle, rfl, rfl⟩ := of_guard_mk hs
    exact .quiet rfl rfl rfl (.inr ⟨hidle.1, rfl⟩) ⟨rfl, fun _ => rfl⟩
  | writeNext opens =>
    obtain ⟨hrun, hs⟩ := of_guard_ok hs
    exact fileStep_writeNext hrun hs

/-- The entries for a file are written up to the one that is lost, and the task stops at the next
one. -/
structure FileFates (k : LogKind) (ws ls ss : List LogData) (h : List (LogStep × LogOut))
    (s : LogState) : Prop where
  fates : entryFates k h =
    ws.map (Prod.mk .wrote) ++ ls.map (Prod.mk .lost) ++ ss.map (Prod.mk .stuck)
  one_lost : ls.length ≤ 1
  one_stuck : ss.length ≤ 1
  lost_of_stuck : ss ≠ [] → ls ≠ []
  alive : ls = [] → s.fd k = s.locked k
  dead : ls ≠ [] → s.fd k = false ∧ s.locked k = true
  waits : ss ≠ [] → ∃ d, s.writer = .stuck d

theorem entryFates_concat (k : LogKind) :
    entryFates k (h ++ [(a, e)]) = entryFates k h ++ entryFates k [(a, e)] := List.filterMap_append

section

variable {k : LogKind} {ws ls ss : List LogData}

/-- While the task runs it has not stopped at an entry. -/
theorem FileFates.not_stuck (hI : FileFates k ws ls ss h s) (hrun : s.writer = .running) :
    ss = [] := by
  by_contra hss
  obtain ⟨d, hd⟩ := hI.waits hss
  exact absurd (hd.symm.trans hrun) nofun

/-- A step that is not about this file. -/
theorem FileFates.frame (hI : FileFates k ws ls ss h s) (hfd : s'.fd k = s.fd k)
    (hlocked : s'.locked k = s.locked k)
    (hwriter : (∃ d, s.writer = .stuck d) → ∃ d, s'.writer = .stuck d)
    (he : entryFates k [(a, e)] = []) : FileFates k ws ls ss (h ++ [(a, e)]) s' := by
  obtain ⟨hfates, hlost, hstuck, hlos, halive, hdead, hwaits⟩ := hI
  refine ⟨?_, hlost, hstuck, hlos, ?_, ?_, fun hss => hwriter (hwaits hss)⟩
  · rw [entryFates_concat, he, List.append_nil, hfates]
  · rwa [hfd, hlocked]
  · rwa [hfd, hlocked]

theorem FileFates.step (hI : FileFates k ws ls ss h s) (hs : FileStep s s' a e) :
    ∃ ws ls ss, FileFates k ws ls ss (h ++ [(a, e)]) s' := by
  cases hs with
  | quiet hfd hlocked hfile hwriter he =>
    refine ⟨ws, ls, ss, hI.frame (by rw [hfd]) (by rw [hlocked]) ?_ (he.2 k)⟩
    rintro ⟨d, hd⟩
    rcases hwriter with hsame | ⟨hidle, -⟩
    · exact ⟨d, hsame.trans hd⟩
    · exact absurd (hd.symm.trans hidle) nofun
  | dropped opens d hrun hkind hfc hfd hlocked hfile hwriter =>
    exact ⟨ws, ls, ss, hI.frame (by rw [hfd]) (by rw [hlocked]) (by rw [hwriter]; exact id) rfl⟩
  | ends opens hrun hfd hlocked hfile hwriter =>
    -- the mutex stays locked where the file did not open
    obtain rfl := hI.not_stuck hrun
    refine ⟨ws, ls, [], ?_, hI.one_lost, hI.one_stuck, hI.lost_of_stuck, fun hls => ?_,
      fun hls => ?_, nofun⟩
    · rw [entryFates_concat, hI.fates]
      exact List.append_nil _
    · simp [hfd, hlocked, hI.alive hls]
    · simp [hfd, hlocked, hI.dead hls]
  | wrote opens d hrun hopen hfd hlocked hfile hwriter =>
    by_cases hk : LogKind.ofLevel d.level = k
    · obtain rfl := hI.not_stuck hrun
      obtain rfl : ls = [] := by
        by_contra hls
        rw [hk, (hI.dead hls).1] at hopen
        contradiction
      refine ⟨ws ++ [d], [], [], ?_, by simp, by simp, nofun, ?_, nofun, nofun⟩
      · rw [entryFates_concat, hI.fates]
        simp [entryFates, hk]
      · rw [hfd, hlocked]
        exact hI.alive
    · refine ⟨ws, ls, ss, hI.frame (by rw [hfd]) (by rw [hlocked]) (by rw [hwriter]; exact id) ?_⟩
      simp [entryFates, hk]
  | opened opens d hrun hfree hfd hlocked hfile hwriter =>
    by_cases hk : LogKind.ofLevel d.level = k
    · obtain rfl := hI.not_stuck hrun
      obtain rfl : ls = [] := by
        by_contra hls
        rw [hk, (hI.dead hls).2] at hfree
        contradiction
      rw [hk] at hfd hlocked
      cases opens with
      | true =>
        refine ⟨ws ++ [d], [], [], ?_, by simp, by simp, nofun, ?_, nofun, nofun⟩
        · rw [entryFates_concat, hI.fates]
          simp [entryFates, hk]
        · rw [hfd, hlocked, Function.update_self, Function.update_self]
          exact fun _ => rfl
      | false =>
        refine ⟨ws, [d], [], ?_, by simp, by simp, nofun, nofun, ?_, nofun⟩
        · rw [entryFates_concat, hI.fates]
          simp [entryFates, hk]
        · rw [hfd, hlocked, Function.update_self, Function.update_self]
          exact fun _ => ⟨rfl, rfl⟩
    · refine ⟨ws, ls, ss, hI.frame ?_ ?_ (by rw [hwriter]; exact id) ?_⟩
      · rw [hfd, Function.update_of_ne (Ne.symm hk)]
      · rw [hlocked, Function.update_of_ne (Ne.symm hk)]
      · cases opens <;> simp [entryFates, hk]
  | stuck opens d hrun hclosed hheld hfd hlocked hfile hwriter =>
    by_cases hk : LogKind.ofLevel d.level = k
    · obtain rfl := hI.not_stuck hrun
      have hls : ls ≠ [] := by
        intro hls
        have heq := hI.alive hls
        rw [hk] at hclosed hheld
        rw [hclosed, hheld] at heq
        contradiction
      refine ⟨ws, ls, [d], ?_, hI.one_lost, by simp, fun _ => hls, fun hnil => absurd hnil hls, ?_,
        fun _ => ⟨d, hwriter⟩⟩
      · rw [entryFates_concat, hI.fates]
        simp [entryFates, hk]
      · rw [hfd, hlocked]
        exact hI.dead
    · refine ⟨ws, ls, ss, hI.frame (by rw [hfd]) (by rw [hlocked]) (fun _ => ⟨d, hwriter⟩) ?_⟩
      simp [entryFates, hk]

end

/-- The entries that the loop takes for a file other than the debug file all have a fate there. -/
theorem filter_taken_step (hs : FileStep s s' a e) {k : LogKind} (hk : k ≠ .debug) :
    (taken [(a, e)]).filter (fun d => LogKind.ofLevel d.level = k) =
      (entryFates k [(a, e)]).map Prod.snd := by
  cases hs with
  | quiet hfd hlocked hfile hwriter he =>
    rw [he.1, he.2]
    rfl
  | ends => rfl
  | dropped opens d hrun hkind => simp [taken, entryFates, hkind, hk.symm]
  | wrote opens d => by_cases hd : LogKind.ofLevel d.level = k <;> simp [taken, entryFates, hd]
  | opened opens d =>
    cases opens <;> by_cases hd : LogKind.ofLevel d.level = k <;> simp [taken, entryFates, hd]
  | stuck opens d => by_cases hd : LogKind.ofLevel d.level = k <;> simp [taken, entryFates, hd]

/-- **No message is lost on its way to the log file** but one for a file that cannot be opened; and
where another one for this file follows, the task stops with it.  The messages of every level but
those of debugging are written in the order in which they were put out. -/
theorem log_file_conserves (hr : logging.Reaches h s) (k : LogKind) :
    ∃ ws ls ss logs, getl s.output_id s.lists = some ⟨s.output_id, logs⟩ ∧
      entryFates k h =
        ws.map (Prod.mk .wrote) ++ ls.map (Prod.mk .lost) ++ ss.map (Prod.mk .stuck) ∧
      ls.length ≤ 1 ∧ ss.length ≤ 1 ∧ (ss ≠ [] → ls ≠ []) ∧
      (k ≠ .debug → (delivered h).filter (fun d => LogKind.ofLevel d.level = k) =
        ws ++ ls ++ ss ++ logs.filter fun d => LogKind.ofLevel d.level = k) := by
  obtain ⟨logs, hfile, hlogs⟩ := (outputs_reached hr).2.file
  have hfates : ∃ ws ls ss, FileFates k ws ls ss h s := by
    refine hr.invariant (I := fun h s => ∃ ws ls ss, FileFates k ws ls ss h s) _ ?_ ?_
    · exact ⟨[], [], [], rfl, by simp, by simp, nofun, fun _ => rfl, nofun, nofun⟩
    · rintro h s a s' e - ⟨ws, ls, ss, hI⟩ hs
      exact hI.step (fileStep hs)
  have htaken : k ≠ .debug → (taken h).filter (fun d => LogKind.ofLevel d.level = k) =
      (entryFates k h).map Prod.snd := by
    intro hk
    refine hr.invariant (I := fun h _ => (taken h).filter (fun d => LogKind.ofLevel d.level = k) =
      (entryFates k h).map Prod.snd) _ rfl ?_
    intro h s a s' e _ hI hs
    rw [taken_concat, entryFates_concat, List.filter_append, List.map_append, hI,
      filter_taken_step (fileStep hs) hk]
  obtain ⟨ws, ls, ss, hI⟩ := hfates
  refine ⟨ws, ls, ss, logs, hfile, hI.fates, hI.one_lost, hI.one_stuck, hI.lost_of_stuck,
    fun hk => ?_⟩
  rw [hlogs, List.filter_append, htaken hk, hI.fates]
  simp

end

/-- Two errors. -/
def twoErrors : List LogStep :=
  [.setLevel 1 0, .acquire 1, .put 1 (str "a"), .endlog 1 (str "[] "), .writeBegin,
    .writeNext false, .setLevel 1 0, .acquire 1, .put 1 (str "b"), .endlog 1 (str "[] "),
    .writeNext false]

/-- The file of the errors cannot be opened: the first error is lost, and the task stops with the
second one. -/
theorem log_file_conserves_lost :
    entryFates .error (logging.history twoErrors) =
        [(.lost, ⟨0, str "[] a"⟩), (.stuck, ⟨0, str "[] b"⟩)] ∧
      ∃ ws ls ss logs, getl (logging.final twoErrors).output_id (logging.final twoErrors).lists =
          some ⟨(logging.final twoErrors).output_id, logs⟩ ∧
        entryFates .error (logging.history twoErrors) =
          ws.map (Prod.mk .wrote) ++ ls.map (Prod.mk .lost) ++ ss.map (Prod.mk .stuck) ∧
        ls.length ≤ 1 ∧ ss.length ≤ 1 ∧ (ss ≠ [] → ls ≠ []) ∧
        (LogKind.error ≠ .debug →
          (delivered (logging.history twoErrors)).filter
              (fun d => LogKind.ofLevel d.level = .error) =
            ws ++ ls ++ ss ++ logs.filter fun d => LogKind.ofLevel d.level = .error) :=
  ⟨by decide +kernel, log_file_conserves (logging.reaches_history twoErrors) .error⟩

end Tacppd
