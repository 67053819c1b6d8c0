import WiseTraceLoom.Lib.Interleaving

/-!
# What happens in the long run

`Interleaving` is about what no run ever does.  Here a run goes on for ever, so that one can also
say what must happen in it.  The scheduler is *weakly fair* to a thread if it does not pass the
thread over for ever while it could take a step.

`Forever.eventually` is the rule: a thread that can always take a step, each of which lowers a rank
that no other thread raises, gets where it is going.
-/

set_option autoImplicit false

namespace Interleaving

universe u v w

variable {ι : Type u} {σ : Type v} {τ : Type w} [DecidableEq ι] {tstep : σ → τ → σ → τ → Prop}
  {c : ℕ → Config ι σ τ}

/-- A run without an end: at every moment some thread takes a step, or nothing happens. -/
def Forever (tstep : σ → τ → σ → τ → Prop) (c : ℕ → Config ι σ τ) : Prop :=
  ∀ n, c (n + 1) = c n ∨ Step tstep (c n) (c (n + 1))

/-- Thread `i` can take a step. -/
def Enabled (tstep : σ → τ → σ → τ → Prop) (i : ι) (d : Config ι σ τ) : Prop :=
  ∃ s' t', tstep d.shared (d.locals i) s' t'

/-- If thread `i` can take a step at every moment from `n` on, it takes one. -/
def WeakFair (tstep : σ → τ → σ → τ → Prop) (i : ι) (c : ℕ → Config ι σ τ) : Prop :=
  ∀ n, (∀ m, n ≤ m → Enabled tstep i (c m)) → ∃ m, n ≤ m ∧ StepOf tstep i (c m) (c (m + 1))

/-- Between two moments there is a run. -/
theorem Forever.steps (h : Forever tstep c) {m n : ℕ} (hmn : m ≤ n) : Steps tstep (c m) (c n) := by
  induction n, hmn using Nat.le_induction with
  | base => exact .refl
  | succ n _ ih =>
    rcases h n with hsame | hstep
    · rwa [hsame]
    · exact ih.tail hstep

/-- **A falling rank.**  As long as `Q` does not hold, thread `i` can take a step, its steps lower
the rank and those of the others do not raise it; then `Q` holds some day. -/
theorem Forever.eventually {i : ι} {I Q : Config ι σ τ → Prop} (rank : Config ι σ τ → ℕ)
    (h : Forever tstep c) (hfair : WeakFair tstep i c)
    (henabled : ∀ d, I d → ¬Q d → Enabled tstep i d)
    (hown : ∀ d s' t', I d → ¬Q d → tstep d.shared (d.locals i) s' t' →
      Q (d.set i s' t') ∨ I (d.set i s' t') ∧ rank (d.set i s' t') < rank d)
    (hothers : ∀ d j s' t', j ≠ i → I d → ¬Q d → tstep d.shared (d.locals j) s' t' →
      Q (d.set j s' t') ∨ I (d.set j s' t') ∧ rank (d.set j s' t') ≤ rank d)
    {n : ℕ} (hn : I (c n)) : ∃ m, n ≤ m ∧ Q (c m) := by
  induction hrank : rank (c n) using Nat.strong_induction_on generalizing n with
  | _ r ih =>
    by_contra! hnever
    -- until thread `i` moves, the rank is at most what it was
    have hstay (m : ℕ) (hm : n ≤ m) : I (c m) ∧ rank (c m) ≤ r := by
      induction m, hm using Nat.le_induction with
      | base => exact ⟨hn, hrank.le⟩
      | succ m hm ihm =>
        rcases h m with hsame | ⟨j, s', t', ht, hnext⟩
        · rwa [hsame]
        · have hQ : ¬Q (c m) := hnever m hm
          have hQ' : ¬Q ((c m).set j s' t') := hnext ▸ hnever (m + 1) (by omega)
          rw [hnext]
          by_cases hji : j = i
          · subst hji
            obtain ⟨hI, hlt⟩ := (hown _ s' t' ihm.1 hQ ht).resolve_left hQ'
            exact ⟨hI, hlt.le.trans ihm.2⟩
          · obtain ⟨hI, hle⟩ := (hothers _ j s' t' hji ihm.1 hQ ht).resolve_left hQ'
            exact ⟨hI, hle.trans ihm.2⟩
    obtain ⟨m, hm, s', t', ht, hnext⟩ :=
      hfair n fun m hm ↦ henabled _ (hstay m hm).1 (hnever m hm)
    have hmoved := hown _ s' t' (hstay m hm).1 (hnever m hm) ht
    rw [← hnext] at hmoved
    obtain ⟨hI, hlt⟩ := hmoved.resolve_left (hnever (m + 1) (by omega))
    obtain ⟨m', hm', hQ⟩ := ih _ (hlt.trans_le (hstay m hm).2) hI rfl
    exact hnever m' (by omega) hQ

end Interleaving
