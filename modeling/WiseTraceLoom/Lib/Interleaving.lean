import Mathlib.Data.Set.Card
import Mathlib.Logic.Function.Basic
import Mathlib.Logic.Relation

/-!
# Threads interleaved over one shared state

A `Config` is a shared state together with the local state of every thread.  A program is given by
the atomic steps `tstep s t s' t'` one thread can take: from shared state `s` and its own local
state `t` to `s'` and `t'`.  `Step` lets any thread take one such step, so `Steps` is every run, in
every order, of any number of threads.

The proof rule is rely–guarantee.  A thread *relies* on the others changing the shared state only
along a preorder `R`, and *guarantees* the same of its own steps.  What it remembers of earlier
reads is an assertion `L s t` about its local state that survives every change along `R`, and the
shared invariant `I` is kept by each step.  `RelyGuarantee.steps` packages the one induction all of
this needs; `Steps.follow` follows a single thread from a point in the middle of a run.

Where two runs are compared, a `Trace` keeps the history of a run next to it; where it matters whose
steps they were, a `Schedule` does.  `Passed` is about the moments of a run through which a thread
stays in one call, and `Attended` about work that threads hand to each other.
-/

set_option autoImplicit false

namespace Interleaving

universe u v w

/-- One shared state, and one local state for each thread. -/
structure Config (ι : Type u) (σ : Type v) (τ : Type w) where
  /-- What all threads read and write. -/
  shared : σ
  /-- What each thread keeps to itself: its program counter and its variables. -/
  locals : ι → τ

variable {ι : Type u} {σ : Type v} {τ : Type w} [DecidableEq ι]

/-- The configuration after thread `i` moved to `t'` and left the shared state `s'`. -/
def Config.set (c : Config ι σ τ) (i : ι) (s' : σ) (t' : τ) : Config ι σ τ :=
  ⟨s', Function.update c.locals i t'⟩

@[simp] theorem Config.set_shared (c : Config ι σ τ) (i : ι) (s' : σ) (t' : τ) :
    (c.set i s' t').shared = s' := rfl

@[simp] theorem Config.set_locals_self (c : Config ι σ τ) (i : ι) (s' : σ) (t' : τ) :
    (c.set i s' t').locals i = t' := by simp [Config.set]

theorem Config.set_locals_ne (c : Config ι σ τ) {i j : ι} (s' : σ) (t' : τ) (h : j ≠ i) :
    (c.set i s' t').locals j = c.locals j := by simp [Config.set, h]

/-- What holds of the thread that has moved and of all others holds of every thread. -/
theorem Config.forall_locals {P : ι → τ → Prop} {c : Config ι σ τ} {i : ι} {s' : σ} {t' : τ}
    (hself : P i t') (hothers : ∀ j, j ≠ i → P j (c.locals j)) (j : ι) :
    P j ((c.set i s' t').locals j) := by
  by_cases hji : j = i
  · subst hji
    rwa [Config.set_locals_self]
  · rw [Config.set_locals_ne c s' t' hji]
    exact hothers j hji

/-- The threads whose local state is `P`. -/
def Config.threads (P : τ → Prop) (c : Config ι σ τ) : Set ι := {i | P (c.locals i)}

/-- A thread that moves leaves those it was among. -/
theorem Config.threads_set_of_neg {P : τ → Prop} (c : Config ι σ τ) {i : ι} (s' : σ) {t' : τ}
    (h : ¬P t') : (c.set i s' t').threads P = c.threads P \ {i} := by
  ext j
  by_cases hji : j = i
  · subst hji
    simp [Config.threads, h]
  · simp [Config.threads, Config.set_locals_ne c s' t' hji, hji]

/-- Nothing changes for them. -/
theorem Config.threads_set_of_iff {P : τ → Prop} (c : Config ι σ τ) {i : ι} (s' : σ) {t' : τ}
    (h : P t' ↔ P (c.locals i)) : (c.set i s' t').threads P = c.threads P := by
  ext j
  by_cases hji : j = i
  · subst hji
    simp [Config.threads, h]
  · simp [Config.threads, Config.set_locals_ne c s' t' hji]

variable (tstep : σ → τ → σ → τ → Prop)

/-- Thread `i` takes one atomic step. -/
def StepOf (i : ι) (c c' : Config ι σ τ) : Prop :=
  ∃ s' t', tstep c.shared (c.locals i) s' t' ∧ c' = c.set i s' t'

/-- Some thread takes one atomic step. -/
def Step (c c' : Config ι σ τ) : Prop := ∃ i, StepOf tstep i c c'

/-- A run: any number of atomic steps, the threads taking turns in any order. -/
abbrev Steps : Config ι σ τ → Config ι σ τ → Prop := Relation.ReflTransGen (Step tstep)

variable {tstep}

/-- The step thread `i` takes from local state `t`, added to the end of a run. -/
theorem Steps.thread {c d : Config ι σ τ} (h : Steps tstep c d) (i : ι) {s' : σ} {t' : τ}
    (ht : tstep d.shared (d.locals i) s' t') : Steps tstep c (d.set i s' t') :=
  h.tail ⟨i, s', t', ht, rfl⟩

/-- The same where the local state of the thread is given by an equation. -/
theorem Steps.threadAt {c d : Config ι σ τ} (h : Steps tstep c d) (i : ι) {t t' : τ} {s' : σ}
    (hi : d.locals i = t) (ht : tstep d.shared t s' t') : Steps tstep c (d.set i s' t') :=
  h.thread i (hi ▸ ht)

/-- A run of a system is one of any system with more steps. -/
theorem Steps.mono {ustep : σ → τ → σ → τ → Prop}
    (h : ∀ s t s' t', tstep s t s' t' → ustep s t s' t') {c d : Config ι σ τ}
    (hrun : Steps tstep c d) : Steps ustep c d := by
  refine Relation.ReflTransGen.mono ?_ c d hrun
  rintro e f ⟨i, s', t', ht, hf⟩
  exact ⟨i, s', t', h _ _ _ _ ht, hf⟩

/-- What is known of every thread in every state of a run is known at each of its steps. -/
theorem Steps.strengthen {J : σ → τ → Prop} {c d : Config ι σ τ} (h : Steps tstep c d)
    (hJ : ∀ e, Steps tstep c e → ∀ i, J e.shared (e.locals i)) :
    Steps (fun s t s' t' ↦ tstep s t s' t' ∧ J s t) c d := by
  induction h with
  | refl => exact .refl
  | @tail d e hcd hde ih =>
    obtain ⟨i, s', t', ht, rfl⟩ := hde
    exact ih.tail ⟨i, s', t', ⟨ht, hJ d hcd i⟩, rfl⟩

/-- **What every step keeps, every run keeps.**  This takes a property of whole configurations,
where the rely–guarantee rule below takes one of the shared state and one of each thread. -/
theorem Steps.invariant {I : Config ι σ τ → Prop}
    (hstep : ∀ d i s' t', I d → tstep d.shared (d.locals i) s' t' → I (d.set i s' t'))
    {c d : Config ι σ τ} (h : Steps tstep c d) (hI : I c) : I d := by
  induction h with
  | refl => exact hI
  | @tail d e _ hde ih =>
    obtain ⟨i, s', t', ht, rfl⟩ := hde
    exact hstep d i s' t' ih ht

/-! ## Systems with more to their state

Where the shared state of one system has parts that another system knows nothing of, runs of the
first are runs of the second. -/

/-- A configuration as another system sees it, which looks only at `f` of the shared state and at
`g` of each thread. -/
def Config.map {ρ : Type v} {υ : Type w} (f : ρ → σ) (g : υ → τ) (c : Config ι ρ υ) :
    Config ι σ τ := ⟨f c.shared, fun i ↦ g (c.locals i)⟩

/-- **A simulation carries over to runs**: if every step is a step of the other system or nothing
that this system sees, every run is a run of the other system. -/
theorem Steps.map {ρ : Type v} {υ : Type w} {f : ρ → σ} {g : υ → τ}
    {ustep : ρ → υ → ρ → υ → Prop}
    (h : ∀ s u s' u', ustep s u s' u' →
      tstep (f s) (g u) (f s') (g u') ∨ f s' = f s ∧ g u' = g u)
    {c d : Config ι ρ υ} (hrun : Steps ustep c d) : Steps tstep (c.map f g) (d.map f g) := by
  induction hrun with
  | refl => exact .refl
  | @tail d e _ hde ih =>
    obtain ⟨i, s', u', hu, rfl⟩ := hde
    have hset : (d.set i s' u').map f g = (d.map f g).set i (f s') (g u') := by
      simp only [Config.map, Config.set, Config.mk.injEq, true_and]
      funext j
      by_cases hji : j = i
      · subst hji
        rw [Function.update_self, Function.update_self]
      · rw [Function.update_of_ne hji, Function.update_of_ne hji]
    rw [hset]
    rcases h _ _ _ _ hu with ht | ⟨hs, hl⟩
    · exact Steps.thread ih i ht
    · have hsame : (d.map f g).set i (f s') (g u') = d.map f g := by
        rw [hs, hl]
        simp only [Config.map, Config.set, Config.mk.injEq, true_and]
        exact Function.update_eq_self i fun i ↦ g (d.locals i)
      rwa [hsame]

/-- The same configuration, of whose shared state only `f` is looked at. -/
def Config.mapShared {ρ : Type v} (f : ρ → σ) (c : Config ι ρ τ) : Config ι σ τ :=
  ⟨f c.shared, c.locals⟩

theorem Steps.mapShared {ρ : Type v} {f : ρ → σ} {ustep : ρ → τ → ρ → τ → Prop}
    (h : ∀ s t s' t', ustep s t s' t' → tstep (f s) t (f s') t') {c d : Config ι ρ τ}
    (hrun : Steps ustep c d) : Steps tstep (c.mapShared f) (d.mapShared f) :=
  Steps.map (f := f) (g := id) (fun s t s' t' ht ↦ Or.inl (h s t s' t' ht)) hrun

/-! ## One thread on its own -/

/-- The runs of a single thread that nobody interferes with. -/
abbrev Solo (tstep : σ → τ → σ → τ → Prop) : σ × τ → σ × τ → Prop :=
  Relation.ReflTransGen fun x y ↦ tstep x.1 x.2 y.1 y.2

theorem Solo.step {x : σ × τ} {s s' : σ} {t t' : τ} (h : Solo tstep x (s, t))
    (ht : tstep s t s' t') : Solo tstep x (s', t') := h.tail ht

/-- What a thread does on its own is a run of the system in which only this thread moves. -/
theorem Solo.lift {υ : Type w} {ustep : σ → υ → σ → υ → Prop} {embed : υ → τ}
    (hembed : ∀ {s u s' u'}, ustep s u s' u' → tstep s (embed u) s' (embed u'))
    {c : Config ι σ τ} (i : ι) {s s' : σ} {u u' : υ} (hs : c.shared = s)
    (hi : c.locals i = embed u) (h : Solo ustep (s, u) (s', u')) :
    Steps tstep c (c.set i s' (embed u')) := by
  subst hs
  suffices hall : ∀ y, Solo ustep (c.shared, u) y →
      Steps tstep c (c.set i y.1 (embed y.2)) from hall (s', u') h
  intro y hy
  induction hy with
  | refl =>
    have hsame : c.set i c.shared (embed u) = c := by
      rw [Config.set, ← hi, Function.update_eq_self]
    rw [hsame]
  | @tail y z _ hyz ih =>
    have hnext : Steps tstep c ((c.set i y.1 (embed y.2)).set i z.1 (embed z.2)) := by
      refine Steps.thread ih i ?_
      rw [Config.set_shared, Config.set_locals_self]
      exact hembed hyz
    have htwice : (c.set i y.1 (embed y.2)).set i z.1 (embed z.2) = c.set i z.1 (embed z.2) := by
      simp [Config.set]
    rwa [htwice] at hnext

/-! ## Runs with a history -/

/-- A run together with its history: the local states that were reached, by whichever thread, one
after the other.  Which steps are allowed may depend on the whole configuration. -/
inductive Trace (allowed : Config ι σ τ → ι → σ → τ → Prop) (c : Config ι σ τ) :
    List τ → Config ι σ τ → Prop
  | nil : Trace allowed c [] c
  | snoc {l : List τ} {d : Config ι σ τ} {i : ι} {s' : σ} {t' : τ} (h : Trace allowed c l d)
      (ht : allowed d i s' t') : Trace allowed c (l ++ [t']) (d.set i s' t')

/-- Forgetting the history. -/
theorem Trace.steps {allowed : Config ι σ τ → ι → σ → τ → Prop}
    (hallowed : ∀ {d i s' t'}, allowed d i s' t' → tstep d.shared (d.locals i) s' t')
    {c d : Config ι σ τ} {l : List τ} (h : Trace allowed c l d) : Steps tstep c d := by
  induction h with
  | nil => exact .refl
  | @snoc l d i s' t' _ ht ih => exact Steps.thread ih i (hallowed ht)

/-- A run is one in which more steps are allowed. -/
theorem Trace.mono {allowed allowed' : Config ι σ τ → ι → σ → τ → Prop}
    (hallowed : ∀ {d i s' t'}, allowed d i s' t' → allowed' d i s' t') {c d : Config ι σ τ}
    {l : List τ} (h : Trace allowed c l d) : Trace allowed' c l d := by
  induction h with
  | nil => exact .nil
  | snoc _ ht ih => exact ih.snoc (hallowed ht)

/-- What every allowed step keeps, every run keeps. -/
theorem Trace.invariant {allowed : Config ι σ τ → ι → σ → τ → Prop} {I : Config ι σ τ → Prop}
    (hstep : ∀ d i s' t', I d → allowed d i s' t' → I (d.set i s' t')) {c d : Config ι σ τ}
    {l : List τ} (h : Trace allowed c l d) (hI : I c) : I d := by
  induction h with
  | nil => exact hI
  | @snoc l d i s' t' _ ht ih => exact hstep d i s' t' ih ht

/-- The local states a single thread reaches one after the other while nobody interferes. -/
inductive SoloTrace (tstep : σ → τ → σ → τ → Prop) (x : σ × τ) : List τ → σ × τ → Prop
  | nil : SoloTrace tstep x [] x
  | snoc {l : List τ} {y : σ × τ} {s' : σ} {t' : τ} (h : SoloTrace tstep x l y)
      (ht : tstep y.1 y.2 s' t') : SoloTrace tstep x (l ++ [t']) (s', t')

/-- What a thread does on its own goes on at the end of a run. -/
theorem Trace.solo {allowed : Config ι σ τ → ι → σ → τ → Prop} {c d : Config ι σ τ} {l l' : List τ}
    (h : Trace allowed c l d) (i : ι) {y : σ × τ}
    (hsolo : SoloTrace tstep (d.shared, d.locals i) l' y)
    (hallowed : ∀ e s' t', t' ∈ l' → tstep e.shared (e.locals i) s' t' → allowed e i s' t') :
    ∃ e, Trace allowed c (l ++ l') e ∧ e.shared = y.1 ∧
      e.locals = Function.update d.locals i y.2 := by
  induction hsolo with
  | nil => exact ⟨d, by rwa [List.append_nil], rfl, (Function.update_eq_self i d.locals).symm⟩
  | @snoc l' y s' t' _ ht ih =>
    obtain ⟨e, he, hshared, hlocals⟩ :=
      ih fun e s' t' hmem ↦ hallowed e s' t' (List.mem_append_left _ hmem)
    have hstep : tstep e.shared (e.locals i) s' t' := by
      rw [hshared, hlocals, Function.update_self]
      exact ht
    refine ⟨e.set i s' t', ?_, rfl, ?_⟩
    · rw [← List.append_assoc]
      exact he.snoc (hallowed e s' t' (by simp) hstep)
    · simp only [Config.set, hlocals, Function.update_idem]

/-- A run together with its schedule: which thread has moved, and to which local state. -/
inductive Schedule (tstep : σ → τ → σ → τ → Prop) (c : Config ι σ τ) :
    List (ι × τ) → Config ι σ τ → Prop
  | nil : Schedule tstep c [] c
  | snoc {l : List (ι × τ)} {d : Config ι σ τ} {i : ι} {s' : σ} {t' : τ}
      (h : Schedule tstep c l d) (ht : tstep d.shared (d.locals i) s' t') :
      Schedule tstep c (l ++ [(i, t')]) (d.set i s' t')

/-- Forgetting the schedule. -/
theorem Schedule.steps {c d : Config ι σ τ} {l : List (ι × τ)} (h : Schedule tstep c l d) :
    Steps tstep c d := by
  induction h with
  | nil => exact .refl
  | snoc _ ht ih => exact Steps.thread ih _ ht

/-! ## Moments of a run -/

/-- Some thread takes a step, after which thread `i` is `P`. -/
def StepWhile (tstep : σ → τ → σ → τ → Prop) (i : ι) (P : τ → Prop) (c c' : Config ι σ τ) : Prop :=
  Step tstep c c' ∧ P (c'.locals i)

/-- A run in which thread `i` stays `P`. -/
abbrev StepsWhile (tstep : σ → τ → σ → τ → Prop) (i : ι) (P : τ → Prop) :
    Config ι σ τ → Config ι σ τ → Prop := Relation.ReflTransGen (StepWhile tstep i P)

theorem StepsWhile.steps {i : ι} {P : τ → Prop} {c d : Config ι σ τ}
    (h : StepsWhile tstep i P c d) : Steps tstep c d :=
  Relation.ReflTransGen.mono (fun _ _ h ↦ h.1) c d h

theorem StepsWhile.thread {i : ι} {P : τ → Prop} {c d : Config ι σ τ}
    (h : StepsWhile tstep i P c d) {s' : σ} {t' : τ} (ht : tstep d.shared (d.locals i) s' t')
    (hP : P t') : StepsWhile tstep i P c (d.set i s' t') :=
  h.tail ⟨⟨i, s', t', ht, rfl⟩, by rwa [Config.set_locals_self]⟩

/-- There was a moment of such a run at which the shared state was `Q`. -/
def Passed (tstep : σ → τ → σ → τ → Prop) (i : ι) (P : τ → Prop) (Q : σ → Prop)
    (c d : Config ι σ τ) : Prop :=
  ∃ e, StepsWhile tstep i P c e ∧ Q e.shared ∧ StepsWhile tstep i P e d

theorem Passed.now {i : ι} {P : τ → Prop} {Q : σ → Prop} {c d : Config ι σ τ}
    (h : StepsWhile tstep i P c d) (hd : Q d.shared) : Passed tstep i P Q c d := ⟨d, h, hd, .refl⟩

theorem Passed.tail {i : ι} {P : τ → Prop} {Q : σ → Prop} {c d e : Config ι σ τ}
    (h : Passed tstep i P Q c d) (hde : StepWhile tstep i P d e) : Passed tstep i P Q c e := by
  obtain ⟨m, hm, hQ, hrest⟩ := h
  exact ⟨m, hm, hQ, hrest.tail hde⟩

/-! ## Work that is handed over -/

/-- Something is done, or some thread has it to do. -/
def Attended (done : σ → Prop) (duty : τ → Prop) (c : Config ι σ τ) : Prop :=
  done c.shared ∨ ∃ i, duty (c.locals i)

/-- It stays so if the thread that takes a step does not drop what it has to do, and undoes nothing
that is done. -/
theorem Attended.set {done : σ → Prop} {duty : τ → Prop} {c : Config ι σ τ} {i : ι} {s' : σ}
    {t' : τ} (h : Attended done duty c)
    (hstep : done c.shared ∨ duty (c.locals i) → done s' ∨ duty t') :
    Attended done duty (c.set i s' t') := by
  have hself (h : done s' ∨ duty t') : Attended done duty (c.set i s' t') :=
    h.imp_right fun ht ↦ ⟨i, by rwa [Config.set_locals_self]⟩
  rcases h with hdone | ⟨j, hj⟩
  · exact hself (hstep (.inl hdone))
  · by_cases hji : j = i
    · exact hself (hstep (.inr (hji ▸ hj)))
    · exact .inr ⟨j, by rwa [Config.set_locals_ne c s' t' hji]⟩

/-- Somebody takes it on. -/
theorem Attended.of_duty {done : σ → Prop} {duty : τ → Prop} (c : Config ι σ τ) (i : ι) (s' : σ)
    {t' : τ} (ht : duty t') : Attended done duty (c.set i s' t') :=
  .inr ⟨i, by rwa [Config.set_locals_self]⟩

/-! ## The rely–guarantee rule -/

variable {J : Config ι σ τ → Prop} {R : σ → σ → Prop} {I : σ → Prop} {L : σ → τ → Prop}

/-- The premises of the rule.  `J` collects whatever is already known of every configuration the
runs pass through, so that a later invariant can be proved on top of an earlier one. -/
structure RelyGuarantee (tstep : σ → τ → σ → τ → Prop) (J : Config ι σ τ → Prop)
    (R : σ → σ → Prop) (I : σ → Prop) (L : σ → τ → Prop) : Prop where
  /-- A step stays inside `R`, keeps the shared invariant and re-establishes the thread's own
  assertion. -/
  step : ∀ (c : Config ι σ τ) (i : ι) (s' : σ) (t' : τ), J c → J (c.set i s' t') →
    I c.shared → L c.shared (c.locals i) → tstep c.shared (c.locals i) s' t' →
    R c.shared s' ∧ I s' ∧ L s' t'
  /-- An assertion survives what the other threads may do. -/
  stable : ∀ (s s' : σ) (t : τ), R s s' → L s t → L s' t

/-- **The rely–guarantee rule**: the shared invariant and every thread's assertion hold after any
run of any interleaving. -/
theorem RelyGuarantee.steps (h : RelyGuarantee tstep J R I L) {c c' : Config ι σ τ}
    (hrun : Steps tstep c c') (hJ : ∀ d, Steps tstep c d → J d) (hI : I c.shared)
    (hL : ∀ i, L c.shared (c.locals i)) : I c'.shared ∧ ∀ i, L c'.shared (c'.locals i) := by
  induction hrun with
  | refl => exact ⟨hI, hL⟩
  | @tail d e hcd hde ih =>
    obtain ⟨i, s', t', ht, rfl⟩ := hde
    have hJe : J (d.set i s' t') := hJ _ (Steps.thread hcd i ht)
    obtain ⟨hR, hI', hL'⟩ := h.step d i s' t' (hJ d hcd) hJe ih.1 (ih.2 i) ht
    refine ⟨hI', fun j ↦ ?_⟩
    by_cases hji : j = i
    · subst hji; simpa using hL'
    · rw [Config.set_locals_ne d s' t' hji]
      exact h.stable _ _ _ hR (ih.2 j)

/-- A relation every single step respects is respected by a whole run. -/
theorem Steps.rely (hrefl : ∀ s, R s s) (htrans : ∀ s₁ s₂ s₃, R s₁ s₂ → R s₂ s₃ → R s₁ s₃)
    {c c' : Config ι σ τ} (hrun : Steps tstep c c')
    (hstep : ∀ d i s' t', Steps tstep c d → tstep d.shared (d.locals i) s' t' → R d.shared s') :
    R c.shared c'.shared := by
  induction hrun with
  | refl => exact hrefl _
  | @tail d e hcd hde ih =>
    obtain ⟨i, s', t', ht, rfl⟩ := hde
    exact htrans _ _ _ ih (hstep d i s' t' hcd ht)

/-- **Following one thread.**  An assertion `M` of thread `i` that its own steps re-establish and
the other threads' steps do not disturb holds at the end of a run if it holds at the start. -/
theorem Steps.follow {M : σ → τ → Prop} (i : ι) {c c' : Config ι σ τ} (hrun : Steps tstep c c')
    (hown : ∀ d s' t', Steps tstep c d → M d.shared (d.locals i) →
      tstep d.shared (d.locals i) s' t' → M s' t')
    (hothers : ∀ d j s' t', Steps tstep c d → M d.shared (d.locals i) →
      tstep d.shared (d.locals j) s' t' → M s' (d.locals i))
    (hM : M c.shared (c.locals i)) : M c'.shared (c'.locals i) := by
  induction hrun with
  | refl => exact hM
  | @tail d e hcd hde ih =>
    obtain ⟨j, s', t', ht, rfl⟩ := hde
    by_cases hji : i = j
    · subst hji; simpa using hown d s' t' hcd ih ht
    · rw [Config.set_shared, Config.set_locals_ne d s' t' hji]
      exact hothers d j s' t' hcd ih ht

end Interleaving
