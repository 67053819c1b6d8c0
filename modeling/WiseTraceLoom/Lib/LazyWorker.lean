import WiseTraceLoom.Lib.Interleaving

/-!
# One worker, started when it is needed

Any number of threads want a background worker to be running.  A shared variable, the *handle*,
holds the worker that was started last.  A thread that finds no live worker there takes a lock,
looks again, and only then creates a worker, stores it in the handle and starts it, all before it
gives the lock back.  A worker may stop at any time, after which the next thread that looks starts
another one.

`Ok` is the invariant of the protocol and `Ok.step` says that every step keeps it.  What the
protocol is for comes out as `Ok.subsingleton` and `Ok.sole`: no two workers are ever alive, not
even for a moment.
-/

set_option autoImplicit false

namespace LazyWorker

open Interleaving

/-- What has become of a worker. -/
inductive Status where
  | created
  /-- Its thread was asked for but does not run yet. -/
  | launched
  | started
  | stopped
  deriving DecidableEq

/-- What the threads share. -/
structure State where
  /-- The worker that was started last. -/
  handle : Option ℕ
  /-- Is the lock taken? -/
  locked : Bool
  /-- The number of the next worker. -/
  next : ℕ
  /-- What has become of every worker. -/
  status : ℕ → Status

/-- Is the worker alive, as far as others can tell? -/
def State.IsAlive (s : State) (k : ℕ) : Prop := s.status k = .started

instance (s : State) (k : ℕ) : Decidable (s.IsAlive k) :=
  inferInstanceAs (Decidable (s.status k = .started))

/-- Is it alive, or about to be? -/
def State.Live (s : State) (k : ℕ) : Prop := s.status k = .launched ∨ s.status k = .started

/-- The state after a worker's status has changed. -/
def State.mark (s : State) (k : ℕ) (x : Status) : State :=
  { s with status := Function.update s.status k x }

@[simp] theorem State.mark_handle (s : State) (k : ℕ) (x : Status) :
    (s.mark k x).handle = s.handle := rfl

@[simp] theorem State.mark_locked (s : State) (k : ℕ) (x : Status) :
    (s.mark k x).locked = s.locked := rfl

@[simp] theorem State.mark_next (s : State) (k : ℕ) (x : Status) :
    (s.mark k x).next = s.next := rfl

@[simp] theorem State.mark_status_self (s : State) (k : ℕ) (x : Status) :
    (s.mark k x).status k = x := by simp [State.mark]

theorem State.mark_status_ne (s : State) {k j : ℕ} (x : Status) (h : j ≠ k) :
    (s.mark k x).status j = s.status j := by simp [State.mark, h]

/-- The start: there is no worker. -/
def State.init : State := ⟨none, false, 0, fun _ ↦ .created⟩

/-- What a thread is doing, as far as workers are concerned. -/
inductive Role where
  /-- Nothing, or looking for a live worker without the lock. -/
  | outside
  /-- Holds the lock and is about to read the handle. -/
  | looking
  /-- Holds the lock and has found a worker. -/
  | seen
  /-- Holds the lock and is about to ask whether this worker is alive. -/
  | loaded (k : ℕ)
  /-- Holds the lock and has found no live worker. -/
  | creating
  /-- Holds the lock and has stored a new worker in the handle. -/
  | assigned (k : ℕ)
  /-- Holds the lock and waits for the new worker to run. -/
  | starting (k : ℕ)
  /-- Holds the lock and is about to give it back. -/
  | leaving
  /-- Is a worker. -/
  | worker (k : ℕ)
  deriving DecidableEq

/-- Does the thread hold the lock? -/
def Role.inLock : Role → Bool
  | .outside | .worker _ => false
  | _ => true

/-- One step of one thread. -/
inductive Step : State → Role → State → Role → Prop
  | acquire {s : State} (h : s.locked = false) :
      Step s .outside { s with locked := true } .looking
  | lookNone {s : State} (h : s.handle = none) : Step s .looking s .creating
  | lookSome {s : State} : Step s .looking s .seen
  | load {s : State} {k : ℕ} (h : s.handle = some k) : Step s .seen s (.loaded k)
  | alive {s : State} {k : ℕ} : Step s (.loaded k) s .leaving
  | dead {s : State} {k : ℕ} (h : ¬s.IsAlive k) : Step s (.loaded k) s .creating
  | create {s : State} :
      Step s .creating { s with handle := some s.next, next := s.next + 1 } (.assigned s.next)
  | launch {s : State} {k : ℕ} : Step s (.assigned k) (s.mark k .launched) (.starting k)
  /-- No thread could be had for the worker. -/
  | launchError {s : State} {k : ℕ} : Step s (.assigned k) s .leaving
  | launched {s : State} {k : ℕ} (h : s.status k ≠ .launched) : Step s (.starting k) s .leaving
  | release {s : State} : Step s .leaving { s with locked := false } .outside
  | begin {s : State} {k : ℕ} (h : s.status k = .launched) :
      Step s .outside (s.mark k .started) (.worker k)
  | stop {s : State} {k : ℕ} : Step s (.worker k) (s.mark k .stopped) .outside

variable {ι : Type*} [DecidableEq ι] {s s' : State} {r r' : Role}

/-! ## The invariant -/

/-- What a thread knows. -/
def Role.Ok (s : State) : Role → Prop
  | .loaded k => s.handle = some k
  | .creating => ∀ k, ¬s.Live k
  | .assigned k => s.handle = some k ∧ ∀ j, ¬s.Live j
  | .starting k => s.handle = some k
  | .worker k => s.status k = .started
  | _ => True

/-- It knows it for as long as the others leave the handle alone, let no worker come to life while
it holds the lock, and do not stop the worker that it is. -/
theorem Role.Ok.frame (h : r.Ok s) (hhandle : r.inLock → s'.handle = s.handle)
    (hlive : r.inLock → ∀ k, s'.Live k → s.Live k)
    (hstarted : ∀ k, r = .worker k → s'.status k = s.status k) : r.Ok s' := by
  cases r with
  | loaded k => exact (hhandle rfl).trans h
  | creating => exact fun k hk ↦ h k (hlive rfl k hk)
  | assigned k => exact ⟨(hhandle rfl).trans h.1, fun j hj ↦ h.2 j (hlive rfl j hj)⟩
  | starting k => exact (hhandle rfl).trans h
  | worker k => exact (hstarted k rfl).trans h
  | outside | looking | seen | leaving => trivial

/-- The invariant. -/
structure Ok (c : Config ι State Role) : Prop where
  /-- Whoever is inside has taken the lock. -/
  locked : ∀ i, (c.locals i).inLock → c.shared.locked = true
  /-- Only one thread is inside. -/
  alone : ∀ i j, (c.locals i).inLock → (c.locals j).inLock → i = j
  /-- The only worker that may be alive is the one in the handle. -/
  live : ∀ k, c.shared.Live k → c.shared.handle = some k
  /-- Who has asked for a worker's thread waits until it runs. -/
  launched : ∀ k, c.shared.status k = .launched → ∃ i, c.locals i = .starting k
  /-- No two threads are the same worker. -/
  one : ∀ i j k, c.locals i = .worker k → c.locals j = .worker k → i = j
  /-- What every thread knows. -/
  role : ∀ i, (c.locals i).Ok c.shared

omit [DecidableEq ι] in
theorem ok_init : Ok (⟨State.init, fun _ ↦ .outside⟩ : Config ι State Role) where
  locked := by simp [Role.inLock]
  alone := by simp [Role.inLock]
  live := by simp [State.init, State.Live]
  launched := by simp [State.init]
  one := by simp
  role := fun _ ↦ trivial

/-! ## The steps keep it -/

variable {c : Config ι State Role} {i : ι}

omit [DecidableEq ι] in
/-- While one thread is inside, the others are not. -/
theorem Ok.not_inLock (hc : Ok c) (hi : (c.locals i).inLock) {j : ι} (hji : j ≠ i) :
    ¬(c.locals j).inLock := fun hj ↦ hji (hc.alone j i hj hi)

/-- **A step inside the lock.**  It may do what it likes with the handle, and with the workers as
long as no live one is lost: nobody else is looking. -/
theorem Ok.inner (hc : Ok c) (hi : (c.locals i).inLock) (hi' : r'.inLock)
    (hlocked : s'.locked = c.shared.locked) (hrole : r'.Ok s')
    (hlive : ∀ k, s'.Live k → s'.handle = some k)
    (hlaunched : ∀ k, s'.status k = .launched → r' = .starting k)
    (hstarted : ∀ k, c.shared.status k = .started → s'.status k = .started) :
    Ok (c.set i s' r') where
  locked := fun _ _ ↦ hlocked.trans (hc.locked i hi)
  alone := by
    have hothers (j : ι) (hj : ((c.set i s' r').locals j).inLock) : j = i := by
      by_contra hji
      rw [Config.set_locals_ne c s' r' hji] at hj
      exact hc.not_inLock hi hji hj
    exact fun j k hj hk ↦ (hothers j hj).trans (hothers k hk).symm
  live := hlive
  launched := fun k hk ↦ ⟨i, by rw [Config.set_locals_self, hlaunched k hk]⟩
  one := by
    have hne (j k : _) (hj : (c.set i s' r').locals j = .worker k) : j ≠ i := by
      rintro rfl
      rw [Config.set_locals_self] at hj
      simp [hj, Role.inLock] at hi'
    intro j j' k hj hj'
    have hji := hne j k hj
    have hji' := hne j' k hj'
    rw [Config.set_locals_ne c s' r' hji] at hj
    rw [Config.set_locals_ne c s' r' hji'] at hj'
    exact hc.one j j' k hj hj'
  role := by
    refine Config.forall_locals (P := fun _ (r : Role) ↦ r.Ok s') hrole fun j hji ↦ ?_
    have hout := hc.not_inLock hi hji
    refine (hc.role j).frame (fun hj ↦ absurd hj hout) (fun hj ↦ absurd hj hout) fun k hk ↦ ?_
    have hstatus := hc.role j
    rw [hk] at hstatus
    exact (hstarted k hstatus).trans hstatus.symm

/-- A step inside the lock that changes nothing. -/
theorem Ok.inner_same (hc : Ok c) (hi : (c.locals i).inLock) (hi' : r'.inLock)
    (hrole : r'.Ok c.shared) (hstarting : ∀ k, c.locals i ≠ .starting k) :
    Ok (c.set i c.shared r') := by
  refine hc.inner hi hi' rfl hrole hc.live (fun k hk ↦ ?_) fun _ hk ↦ hk
  obtain ⟨j, hj⟩ := hc.launched k hk
  have hji := hc.alone j i (by rw [hj]; rfl) hi
  subst hji
  exact absurd hj (hstarting k)

/-- **A step outside the lock**, in which a thread begins or ends to be a worker. -/
theorem Ok.outer (hc : Ok c) (hi : ¬(c.locals i).inLock) (hi' : ¬r'.inLock) {k : ℕ} {x : Status}
    (hlive : ∀ j, (c.shared.mark k x).Live j → c.shared.Live j)
    (hlaunched : x ≠ .launched) (hothers : ∀ j, j ≠ i → c.locals j ≠ .worker k)
    (hrole : r'.Ok (c.shared.mark k x)) (hself : ∀ j, r' = .worker j → j = k) :
    Ok (c.set i (c.shared.mark k x) r') where
  locked := Config.forall_locals (P := fun _ (r : Role) ↦ r.inLock → c.shared.locked = true)
    (fun h ↦ absurd h hi') fun j _ ↦ hc.locked j
  alone := by
    have hne (j : ι) (hj : ((c.set i (c.shared.mark k x) r').locals j).inLock) :
        (c.locals j).inLock := by
      by_cases hji : j = i
      · subst hji
        rw [Config.set_locals_self] at hj
        exact absurd hj hi'
      · rwa [Config.set_locals_ne c _ r' hji] at hj
    exact fun j j' hj hj' ↦ hc.alone j j' (hne j hj) (hne j' hj')
  live := fun j hj ↦ hc.live j (hlive j hj)
  launched := by
    intro j hj
    have hjk : j ≠ k := by
      rintro rfl
      exact hlaunched ((State.mark_status_self c.shared j x).symm.trans hj)
    rw [Config.set_shared, State.mark_status_ne c.shared x hjk] at hj
    obtain ⟨i', hi''⟩ := hc.launched j hj
    refine ⟨i', ?_⟩
    rwa [Config.set_locals_ne c _ r' (by rintro rfl; exact hi (by rw [hi'']; rfl))]
  one := by
    -- a worker among the others is not the one whose status has changed
    have hother (j : ι) (m : ℕ) (hj : (c.set i (c.shared.mark k x) r').locals j = .worker m) :
        j = i ∧ m = k ∨ j ≠ i ∧ m ≠ k ∧ c.locals j = .worker m := by
      by_cases hji : j = i
      · subst hji
        rw [Config.set_locals_self] at hj
        exact Or.inl ⟨rfl, hself m hj⟩
      · rw [Config.set_locals_ne c _ r' hji] at hj
        exact Or.inr ⟨hji, fun hm ↦ hothers j hji (hm ▸ hj), hj⟩
    intro j j' m hj hj'
    rcases hother j m hj with ⟨rfl, rfl⟩ | ⟨-, hm, hj⟩
    · rcases hother j' m hj' with ⟨rfl, -⟩ | ⟨-, hm, -⟩
      · rfl
      · exact absurd rfl hm
    · rcases hother j' m hj' with ⟨-, rfl⟩ | ⟨-, -, hj'⟩
      · exact absurd rfl hm
      · exact hc.one j j' m hj hj'
  role := by
    refine Config.forall_locals (P := fun _ (r : Role) ↦ r.Ok (c.shared.mark k x)) hrole
      fun j hji ↦ (hc.role j).frame (fun _ ↦ rfl) (fun _ ↦ hlive) fun m hm ↦ ?_
    refine State.mark_status_ne c.shared x ?_
    rintro rfl
    exact hothers j hji hm

/-- **Taking the lock and giving it back**, while nobody else is inside. -/
theorem Ok.turn (hc : Ok c) (hothers : ∀ j, j ≠ i → ¬(c.locals j).inLock) {b : Bool}
    (hb : r'.inLock → b = true) (hrole : r'.Ok { c.shared with locked := b })
    (hstarting : ∀ k, c.locals i ≠ .starting k) (hworker : ∀ k, r' ≠ .worker k) :
    Ok (c.set i { c.shared with locked := b } r') where
  locked := Config.forall_locals (P := fun _ (r : Role) ↦ r.inLock → b = true) hb
    fun j hji hj ↦ absurd hj (hothers j hji)
  alone := by
    have heq (j : ι) (hj : ((c.set i { c.shared with locked := b } r').locals j).inLock) :
        j = i := by
      by_contra hji
      rw [Config.set_locals_ne c _ r' hji] at hj
      exact hothers j hji hj
    exact fun j j' hj hj' ↦ (heq j hj).trans (heq j' hj').symm
  live := hc.live
  launched := by
    intro k hk
    obtain ⟨j, hj⟩ := hc.launched k hk
    refine ⟨j, ?_⟩
    rwa [Config.set_locals_ne c _ r' (by rintro rfl; exact hstarting k hj)]
  one := by
    have hold (j : ι) (k : ℕ) (hj : (c.set i { c.shared with locked := b } r').locals j =
        .worker k) : c.locals j = .worker k := by
      by_cases hji : j = i
      · subst hji
        rw [Config.set_locals_self] at hj
        exact absurd hj (hworker k)
      · rwa [Config.set_locals_ne c _ r' hji] at hj
    exact fun j j' k hj hj' ↦ hc.one j j' k (hold j k hj) (hold j' k hj')
  role := Config.forall_locals (P := fun _ (r : Role) ↦ r.Ok { c.shared with locked := b }) hrole
    fun j _ ↦ (hc.role j).frame (fun _ ↦ rfl) (fun _ _ hk ↦ hk) fun _ _ ↦ rfl

/-- **Every step keeps the invariant.** -/
theorem Ok.step (hc : Ok c) (h : Step c.shared (c.locals i) s' r') : Ok (c.set i s' r') := by
  have hrole := hc.role i
  generalize hr : c.locals i = r at h hrole
  have hin (hr' : r.inLock) : (c.locals i).inLock := by rwa [hr]
  have hout (hr' : ¬r.inLock) : ¬(c.locals i).inLock := by rwa [hr]
  cases h with
  | acquire h =>
    refine hc.turn (fun j _ hj ↦ ?_) (fun _ ↦ rfl) trivial (by simp [hr]) (by simp)
    exact absurd ((hc.locked j hj).symm.trans h) (by simp)
  | lookNone h =>
    refine hc.inner_same (hin rfl) rfl (fun k hk ↦ ?_) (by simp [hr])
    rw [hc.live k hk] at h
    exact absurd h (by simp)
  | lookSome => exact hc.inner_same (hin rfl) rfl trivial (by simp [hr])
  | load h => exact hc.inner_same (hin rfl) rfl h (by simp [hr])
  | alive => exact hc.inner_same (hin rfl) rfl trivial (by simp [hr])
  | @dead k h =>
    refine hc.inner_same (hin rfl) rfl (fun j hj ↦ ?_) (by simp [hr])
    -- the live worker would be the one in the handle, which is not alive and not about to be
    have hjk : j = k := Option.some_inj.mp ((hc.live j hj).symm.trans hrole)
    subst hjk
    rcases hj with hj | hj
    · obtain ⟨i', hi'⟩ := hc.launched j hj
      have hii := hc.alone i' i (by rw [hi']; rfl) (hin rfl)
      subst hii
      exact Role.noConfusion (hi'.symm.trans hr)
    · exact h hj
  | create =>
    exact hc.inner (hin rfl) rfl rfl ⟨rfl, hrole⟩ (fun k hk ↦ absurd hk (hrole k))
      (fun k hk ↦ absurd (Or.inl hk) (hrole k)) fun _ hk ↦ hk
  | @launch k =>
    have hnone (j : ℕ) (hjk : j ≠ k) : ¬(c.shared.mark k .launched).Live j := by
      rw [State.Live, State.mark_status_ne c.shared _ hjk]
      exact hrole.2 j
    refine hc.inner (hin rfl) rfl rfl hrole.1 (fun j hj ↦ ?_) (fun j hj ↦ ?_) fun j hj ↦ ?_
    · by_cases hjk : j = k
      · rw [hjk]
        exact hrole.1
      · exact absurd hj (hnone j hjk)
    · by_cases hjk : j = k
      · rw [hjk]
      · exact absurd (Or.inl hj) (hnone j hjk)
    · exact absurd (Or.inr hj) (hrole.2 j)
  | launchError => exact hc.inner_same (hin rfl) rfl trivial (by simp [hr])
  | @launched k h =>
    refine hc.inner (hin rfl) rfl rfl trivial hc.live (fun j hj ↦ ?_) fun _ hj ↦ hj
    have hjk : j = k := Option.some_inj.mp ((hc.live j (Or.inl hj)).symm.trans hrole)
    exact absurd (hjk ▸ hj) h
  | release =>
    exact hc.turn (fun j ↦ hc.not_inLock (hin rfl)) (by simp [Role.inLock]) trivial (by simp [hr])
      (by simp)
  | @begin k h =>
    refine hc.outer (hout (by simp [Role.inLock])) (by simp [Role.inLock]) (fun j hj ↦ ?_)
      (by simp) (fun j _ hj ↦ ?_) (State.mark_status_self c.shared k .started)
      fun j hj ↦ (Role.worker.inj hj).symm
    · by_cases hjk : j = k
      · exact Or.inl (hjk ▸ h)
      · rwa [State.Live, State.mark_status_ne c.shared _ hjk] at hj
    · have hstarted := hc.role j
      rw [hj] at hstarted
      exact absurd (h.symm.trans hstarted) (by simp)
  | @stop k =>
    refine hc.outer (hout (by simp [Role.inLock])) (by simp [Role.inLock]) (fun j hj ↦ ?_)
      (by simp) (fun j hji hj ↦ hji (hc.one j i k hj hr)) trivial (by simp)
    by_cases hjk : j = k
    · subst hjk
      simp [State.Live] at hj
    · rwa [State.Live, State.mark_status_ne c.shared _ hjk] at hj

/-! ## One worker -/

/-- **The invariant holds after every run.** -/
theorem Ok.steps {d : Config ι State Role} (h : Steps Step c d) (hc : Ok c) : Ok d :=
  h.invariant (fun _ _ _ _ he ht ↦ he.step ht) hc

omit [DecidableEq ι] in
/-- **No two workers are alive.** -/
theorem Ok.subsingleton (hc : Ok c) {j k : ℕ} (hj : c.shared.IsAlive j)
    (hk : c.shared.IsAlive k) : j = k :=
  Option.some_inj.mp ((hc.live j (Or.inr hj)).symm.trans (hc.live k (Or.inr hk)))

omit [DecidableEq ι] in
/-- Whoever is a worker is alive. -/
theorem Ok.isAlive (hc : Ok c) {k : ℕ} (hi : c.locals i = .worker k) : c.shared.IsAlive k := by
  have := hc.role i
  rwa [hi] at this

omit [DecidableEq ι] in
/-- **No two threads are workers.** -/
theorem Ok.sole (hc : Ok c) {i' : ι} {k k' : ℕ} (hi : c.locals i = .worker k)
    (hi' : c.locals i' = .worker k') : i = i' := by
  have hkk := hc.subsingleton (hc.isAlive hi) (hc.isAlive hi')
  exact hc.one i i' k hi (hkk ▸ hi')

end LazyWorker
