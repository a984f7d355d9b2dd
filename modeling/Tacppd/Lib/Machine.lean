/-
# Machines that read inputs, give outputs and may stop

A general development: a machine is a state together with a step function that
either stops or goes on with a new state and an output.  A run is recorded as
the list of the inputs read so far, each with the output it got.  The rules
below say that what holds at the start and is kept by every step holds of every
recorded run.
-/
import Mathlib.Data.List.Basic
import Mathlib.Data.List.Induction

/-- A deterministic machine with state `σ`, input `α`, output `ε` and reasons to
stop `ζ`. -/
structure Machine (σ α ε ζ : Type*) where
  /-- The state before the first input. -/
  init : σ
  /-- One step: the next state and the output, or the reason to stop. -/
  step : σ → α → Except ζ (σ × ε)

namespace Machine

variable {σ α ε ζ : Type*} (m : Machine σ α ε ζ)

/-! ## Runs -/

/-- Play the inputs from a state, up to the first one the machine stops at: the
recorded steps and the state after them. -/
def playFrom (m : Machine σ α ε ζ) (s : σ) : List α → List (α × ε) × σ
  | [] => ([], s)
  | a :: as =>
    match m.step s a with
    | .error _ => ([], s)
    | .ok (s', e) =>
      let rest := m.playFrom s' as
      ((a, e) :: rest.1, rest.2)

theorem playFrom_cons {s s' : σ} {a : α} {e : ε} (hs : m.step s a = .ok (s', e)) (as : List α) :
    m.playFrom s (a :: as) = ((a, e) :: (m.playFrom s' as).1, (m.playFrom s' as).2) := by
  rw [playFrom, hs]

/-- The recorded steps of a run on the given inputs. -/
def history (m : Machine σ α ε ζ) (as : List α) : List (α × ε) :=
  (m.playFrom m.init as).1

/-- The state after a run on the given inputs. -/
def final (m : Machine σ α ε ζ) (as : List α) : σ :=
  (m.playFrom m.init as).2

/-- `m.Reaches h s`: the machine has recorded the steps `h` and is in state `s`. -/
inductive Reaches (m : Machine σ α ε ζ) : List (α × ε) → σ → Prop
  | init : Reaches m [] m.init
  | step {h : List (α × ε)} {s s' : σ} {a : α} {e : ε} :
      Reaches m h s → m.step s a = .ok (s', e) → Reaches m (h ++ [(a, e)]) s'

theorem Reaches.playFrom {h : List (α × ε)} {s : σ} (hr : m.Reaches h s) (as : List α) :
    m.Reaches (h ++ (m.playFrom s as).1) (m.playFrom s as).2 := by
  induction as generalizing h s with
  | nil => simpa [Machine.playFrom] using hr
  | cons a as ih =>
    rw [Machine.playFrom]
    split
    · simpa using hr
    · next s' e hs =>
      simpa [List.append_assoc] using ih (hr.step hs)

/-- Every recorded run is reached. -/
theorem reaches_history (as : List α) :
    m.Reaches (m.history as) (m.final as) := by
  simpa [history, final] using Reaches.playFrom m .init as

/-- What is recorded are the first inputs. -/
theorem playFrom_inputs (s : σ) (as : List α) : (m.playFrom s as).1.map Prod.fst <+: as := by
  induction as generalizing s with
  | nil => simp [playFrom]
  | cons a as ih =>
    rw [playFrom]
    split
    · simp
    · next s' e hs => simpa using ih s'

theorem history_inputs (as : List α) : (m.history as).map Prod.fst <+: as :=
  m.playFrom_inputs m.init as

/-! ## Invariants -/

/-- **The invariant rule.**  A relation between the recorded steps and the state
that holds at the start and is kept by every step holds of every run. -/
theorem Reaches.invariant {I : List (α × ε) → σ → Prop} (h0 : I [] m.init)
    (hstep : ∀ h s a s' e, m.Reaches h s → I h s → m.step s a = .ok (s', e) →
      I (h ++ [(a, e)]) s')
    {h : List (α × ε)} {s : σ} (hr : m.Reaches h s) : I h s := by
  induction hr with
  | init => exact h0
  | step hr hs ih => exact hstep _ _ _ _ _ hr ih hs

/-- Before the first step the machine is in its first state. -/
theorem Reaches.eq_init {s : σ} (hr : m.Reaches [] s) : s = m.init := by
  generalize hh : ([] : List (α × ε)) = h at hr
  cases hr with
  | init => rfl
  | step => simp at hh

/-- A recorded step was taken from a state reached by the steps before it. -/
theorem Reaches.of_append {pre post : List (α × ε)} {x : α × ε} {s : σ}
    (hr : m.Reaches (pre ++ x :: post) s) :
    ∃ s₁ s₂, m.Reaches pre s₁ ∧ m.step s₁ x.1 = .ok (s₂, x.2) := by
  generalize hh : pre ++ x :: post = h at hr
  induction hr generalizing post with
  | init => simp at hh
  | @step h s s' a e hr hs ih =>
    rcases List.eq_nil_or_concat post with rfl | ⟨post', y, rfl⟩
    · obtain ⟨rfl, hx⟩ := List.append_inj' hh rfl
      obtain rfl : x = (a, e) := by simpa using hx
      exact ⟨s, s', hr, hs⟩
    · have hpre : pre ++ x :: post' = h := by
        have hcat : (pre ++ x :: post') ++ [y] = h ++ [(a, e)] := by
          simpa [List.append_assoc] using hh
        exact (List.append_inj' hcat rfl).1
      exact ih hpre

/-- A reached run is what the machine records on its inputs, and it goes on from the
state reached. -/
theorem Reaches.playFrom_inputs {h : List (α × ε)} {s : σ} (hr : m.Reaches h s) (as : List α) :
    m.playFrom m.init (h.map Prod.fst ++ as) =
      (h ++ (m.playFrom s as).1, (m.playFrom s as).2) := by
  induction hr generalizing as with
  | init => rfl
  | @step h s s' a e hr hs ih =>
    rw [List.map_append, List.append_assoc, List.map_singleton, List.singleton_append, ih (a :: as),
      Machine.playFrom, hs]
    simp

theorem Reaches.history_eq {h : List (α × ε)} {s : σ} (hr : m.Reaches h s) :
    m.history (h.map Prod.fst) = h := by
  have hplay := hr.playFrom_inputs m []
  rw [List.append_nil] at hplay
  rw [history, hplay]
  simp [Machine.playFrom]

/-- A run ends in one state. -/
theorem Reaches.unique {h : List (α × ε)} {s s' : σ} (hr : m.Reaches h s)
    (hr' : m.Reaches h s') : s = s' := by
  have hplay := hr.playFrom_inputs m []
  rw [hr'.playFrom_inputs m []] at hplay
  exact (congrArg Prod.snd hplay).symm

/-- **The invariant rule for the end of a run**: a property of the steps behind a state that every
step keeps. -/
theorem Reaches.segment {pre post : List (α × ε)} {I : List (α × ε) → σ → Prop} {s₁ s : σ}
    (hpre : m.Reaches pre s₁) (h0 : I [] s₁)
    (hstep : ∀ mid s a s' e, m.Reaches (pre ++ mid) s → I mid s → m.step s a = .ok (s', e) →
      I (mid ++ [(a, e)]) s')
    (hr : m.Reaches (pre ++ post) s) : I post s := by
  induction post using List.reverseRecOn generalizing s with
  | nil =>
    rw [List.append_nil] at hr
    obtain rfl := hpre.unique m hr
    exact h0
  | append_singleton mid x ih =>
    rw [← List.append_assoc] at hr
    obtain ⟨s₂, s₃, hmid, hs⟩ := hr.of_append
    obtain rfl := (hmid.step hs).unique m hr
    exact hstep mid s₂ x.1 s₃ x.2 hmid (ih hmid) hs

/-- The states that a run has passed. -/
theorem Reaches.exists_prefix {pre post : List (α × ε)} {s : σ} (hr : m.Reaches (pre ++ post) s) :
    ∃ s₁, m.Reaches pre s₁ := by
  cases post with
  | nil => exact ⟨s, by rwa [List.append_nil] at hr⟩
  | cons x post =>
    obtain ⟨s₁, _, hpre, _⟩ := hr.of_append
    exact ⟨s₁, hpre⟩

/-! ## Properties of whole runs -/

/-- Every state the run has passed, the first and the last one included, has the
property, which may depend on the steps before it. -/
def Always (m : Machine σ α ε ζ) (I : List (α × ε) → σ → Prop) (h : List (α × ε)) : Prop :=
  ∀ pre post s, h = pre ++ post → m.Reaches pre s → I pre s

/-- Every step of the run was taken under the condition, which may depend on the steps
before it, on the state, and on the input. -/
def EveryStep (m : Machine σ α ε ζ) (ok : List (α × ε) → σ → α → Prop) (h : List (α × ε)) : Prop :=
  ∀ pre x post s, h = pre ++ x :: post → m.Reaches pre s → ok pre s x.1

section

variable {m} {ok : List (α × ε) → σ → α → Prop} {I : List (α × ε) → σ → Prop}

/-- The run without steps. -/
theorem everyStep_nil : m.EveryStep ok [] := by
  intro pre x post s hh
  simp at hh

/-- One step more. -/
theorem EveryStep.concat {h : List (α × ε)} (hok : m.EveryStep ok h) {s : σ} (hr : m.Reaches h s)
    {a : α} (ha : ok h s a) (e : ε) : m.EveryStep ok (h ++ [(a, e)]) := by
  intro pre x post s₁ hh hpre
  rcases List.eq_nil_or_concat post with rfl | ⟨post', y, rfl⟩
  · obtain ⟨rfl, hx⟩ := List.append_inj' hh rfl
    obtain rfl : (a, e) = x := by simpa using hx
    obtain rfl := hr.unique m hpre
    exact ha
  · have hsplit : h ++ [(a, e)] = (pre ++ x :: post') ++ [y] := by
      rw [hh, List.concat_eq_append, List.append_assoc, List.cons_append]
    exact hok pre x post' s₁ (List.append_inj' hsplit rfl).1 hpre

/-- The condition along a run that is played: a proposition that unfolds step by step. -/
def CheckFrom (m : Machine σ α ε ζ) (ok : List (α × ε) → σ → α → Prop) (pre : List (α × ε))
    (s : σ) : List α → Prop
  | [] => True
  | a :: as =>
    match m.step s a with
    | .error _ => True
    | .ok (s', e) => ok pre s a ∧ m.CheckFrom ok (pre ++ [(a, e)]) s' as

instance decidableCheckFrom [∀ pre s a, Decidable (ok pre s a)] (pre : List (α × ε)) (s : σ)
    (as : List α) : Decidable (m.CheckFrom ok pre s as) :=
  match as with
  | [] => .isTrue trivial
  | a :: as =>
    match hs : m.step s a with
    | .error _ => .isTrue (by rw [CheckFrom, hs]; trivial)
    | .ok (s', e) =>
      have := decidableCheckFrom (pre ++ [(a, e)]) s' as
      decidable_of_iff (ok pre s a ∧ m.CheckFrom ok (pre ++ [(a, e)]) s' as)
        (by rw [CheckFrom, hs])

/-- Checking the steps of a run one after the other. -/
theorem everyStep_history {as : List α} (hcheck : m.CheckFrom ok [] m.init as) :
    m.EveryStep ok (m.history as) := by
  suffices hplay : ∀ (as : List α) (pre : List (α × ε)) (s : σ), m.Reaches pre s →
      m.EveryStep ok pre → m.CheckFrom ok pre s as → m.EveryStep ok (pre ++ (m.playFrom s as).1) by
    exact hplay as [] m.init .init everyStep_nil hcheck
  intro as
  induction as with
  | nil =>
    intro pre s _ hok _
    simpa [Machine.playFrom] using hok
  | cons a as ih =>
    intro pre s hr hok hcheck
    rw [Machine.playFrom]
    rw [CheckFrom] at hcheck
    split at hcheck
    · simpa using hok
    · next s' e hs =>
      obtain ⟨ha, hrest⟩ := hcheck
      have hnext := ih (pre ++ [(a, e)]) s' (hr.step hs) (hok.concat hr ha e) hrest
      simpa [List.append_assoc] using hnext

/-- A property that every step keeps under the condition holds always, when every step is
taken under the condition. -/
theorem EveryStep.always (h0 : I [] m.init)
    (hstep : ∀ pre s a s' e, m.Reaches pre s → I pre s → ok pre s a → m.step s a = .ok (s', e) →
      I (pre ++ [(a, e)]) s')
    {h : List (α × ε)} (hok : m.EveryStep ok h) : m.Always I h := by
  intro pre post s hh hr
  induction hr generalizing post with
  | init => exact h0
  | @step pre s s' a e hr hs ih =>
    have hsplit : h = pre ++ (a, e) :: post := by
      rw [hh, List.append_assoc]
      rfl
    exact hstep pre s a s' e hr (ih _ hsplit) (hok pre (a, e) post s hsplit hr) hs

/-- **When the condition is exact**: every step that starts with the property ends with it
if and only if it is taken under the condition.  Then the property holds always if and
only if every step is taken under the condition. -/
theorem Reaches.always_iff_everyStep (h0 : I [] m.init)
    (hstep : ∀ pre s a s' e, m.Reaches pre s → I pre s → m.step s a = .ok (s', e) →
      (I (pre ++ [(a, e)]) s' ↔ ok pre s a))
    {h : List (α × ε)} {s : σ} (hr : m.Reaches h s) : m.Always I h ↔ m.EveryStep ok h := by
  constructor
  · intro halways pre x post s₁ hh hpre
    rw [hh] at hr
    obtain ⟨s₁', s₂, hpre', hs⟩ := hr.of_append
    obtain rfl := hpre.unique m hpre'
    have hI₁ : I pre s₁ := halways pre (x :: post) s₁ hh hpre
    have hI₂ : I (pre ++ [x]) s₂ := by
      apply halways (pre ++ [x]) post s₂ _ (hpre.step hs)
      rw [hh, List.append_assoc]
      rfl
    exact (hstep pre s₁ x.1 s₂ x.2 hpre hI₁ hs).mp hI₂
  · intro hok
    exact EveryStep.always h0
      (fun pre s a s' e hr hI hok hs => (hstep pre s a s' e hr hI hs).mpr hok) hok

end

/-! ## Simulation -/

/-- **The simulation rule.**  When every step of a machine is a step of another one
between related states, with the same output, its runs are runs of the other one. -/
theorem Reaches.simulate {τ : Type*} (n : Machine τ α ε ζ) {R : σ → τ → Prop}
    (h0 : R m.init n.init)
    (hstep : ∀ s t a s' e, R s t → m.step s a = .ok (s', e) →
      ∃ t', n.step t a = .ok (t', e) ∧ R s' t')
    {h : List (α × ε)} {s : σ} (hr : m.Reaches h s) : ∃ t, n.Reaches h t ∧ R s t := by
  induction hr with
  | init => exact ⟨n.init, .init, h0⟩
  | step hr hs ih =>
    obtain ⟨t, hrt, hR⟩ := ih
    obtain ⟨t', hst, hR'⟩ := hstep _ _ _ _ _ hR hs
    exact ⟨t', hrt.step hst, hR'⟩

/-- **The simulation rule for steps that are several steps, or none.**  When every step of a machine
can be played by another one between related states, so that the same is seen of the outputs, then
so can its runs. -/
theorem Reaches.simulate_play {τ β δ ξ κ : Type*} (n : Machine τ β δ ξ) {R : σ → τ → Prop}
    (seen : ε → List κ) (seen' : δ → List κ) (h0 : R m.init n.init)
    (hstep : ∀ h g s t a s' e, m.Reaches h s → n.Reaches g t → R s t →
      m.step s a = .ok (s', e) → ∃ bs, R s' (n.playFrom t bs).2 ∧
        ((n.playFrom t bs).1.flatMap fun x => seen' x.2) = seen e)
    {h : List (α × ε)} {s : σ} (hr : m.Reaches h s) :
    ∃ g t, n.Reaches g t ∧ R s t ∧
      (g.flatMap fun x => seen' x.2) = h.flatMap fun x => seen x.2 := by
  induction hr with
  | init => exact ⟨[], n.init, .init, h0, rfl⟩
  | @step h s s' a e hr hs ih =>
    obtain ⟨g, t, hrt, hR, hseen⟩ := ih
    obtain ⟨bs, hR', hseen'⟩ := hstep h g s t a s' e hr hrt hR hs
    refine ⟨_, _, Reaches.playFrom n hrt bs, hR', ?_⟩
    rw [List.flatMap_append, List.flatMap_append, hseen, hseen', List.flatMap_singleton]

end Machine
