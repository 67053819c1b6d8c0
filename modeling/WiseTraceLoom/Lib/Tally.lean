import Mathlib.Algebra.BigOperators.Finprod
import Mathlib.Tactic.Abel
import WiseTraceLoom.Lib.Interleaving

/-!
# Sums over threads

A shared total to which every thread contributes.  `tally f l` is the sum of what the threads
contribute according to their local states, of which only finitely many contribute anything.
`Steps.tally` is the rule: if every step changes the total by what it changes of the contribution of
its own thread, then after any run, in any order, the total has grown by the contributions of all
threads, each counted once.
-/

set_option autoImplicit false

namespace Interleaving

universe u v w z

variable {ι : Type u} {σ : Type v} {τ : Type w} {M : Type z} [DecidableEq ι]
  [AddCancelCommMonoid M] {f : τ → M} {l : ι → τ}

/-- The sum of the contributions of all threads. -/
noncomputable def tally (f : τ → M) (l : ι → τ) : M := ∑ᶠ i, f (l i)

/-- Only finitely many threads contribute anything. -/
def Few (f : τ → M) (l : ι → τ) : Prop := ∃ s : Finset ι, ∀ i, i ∉ s → f (l i) = 0

omit [DecidableEq ι] in
/-- The sum over any finite set outside of which nobody contributes. -/
theorem tally_eq_sum {s : Finset ι} (h : ∀ i, i ∉ s → f (l i) = 0) :
    tally f l = ∑ i ∈ s, f (l i) := by
  refine finsum_eq_sum_of_support_subset _ fun i hi ↦ ?_
  by_contra hmem
  exact hi (h i hmem)

theorem Few.update (h : Few f l) (i : ι) (t : τ) : Few f (Function.update l i t) := by
  obtain ⟨s, hs⟩ := h
  refine ⟨insert i s, fun j hj ↦ ?_⟩
  rw [Finset.mem_insert, not_or] at hj
  rw [Function.update_of_ne hj.1]
  exact hs j hj.2

/-- When a thread moves, its contribution takes the place of the one it had before. -/
theorem tally_update (h : Few f l) (i : ι) (t : τ) :
    tally f (Function.update l i t) + f (l i) = tally f l + f t := by
  obtain ⟨s, hs⟩ := h
  have hout (j : ι) (hj : j ∉ insert i s) : f (l j) = 0 :=
    hs j fun hmem ↦ hj (Finset.mem_insert_of_mem hmem)
  have hout' (j : ι) (hj : j ∉ insert i s) : f (Function.update l i t j) = 0 := by
    have hji : j ≠ i := by
      rintro rfl
      exact hj (Finset.mem_insert_self j s)
    rw [Function.update_of_ne hji]
    exact hout j hj
  have hmem : i ∈ insert i s := Finset.mem_insert_self i s
  have hrest : ∑ j ∈ (insert i s).erase i, f (Function.update l i t j) =
      ∑ j ∈ (insert i s).erase i, f (l j) :=
    Finset.sum_congr rfl fun j hj ↦ by rw [Function.update_of_ne (Finset.ne_of_mem_erase hj)]
  rw [tally_eq_sum hout, tally_eq_sum hout',
    ← Finset.add_sum_erase _ (fun j ↦ f (Function.update l i t j)) hmem,
    ← Finset.add_sum_erase _ (fun j ↦ f (l j)) hmem, hrest, Function.update_self]
  abel

theorem tally_add {g : τ → M} (hf : Few f l) (hg : Few g l) :
    tally (fun t ↦ f t + g t) l = tally f l + tally g l := by
  obtain ⟨s, hs⟩ := hf
  obtain ⟨s', hs'⟩ := hg
  have hf' (i : ι) (hi : i ∉ s ∪ s') : f (l i) = 0 :=
    hs i fun hmem ↦ hi (Finset.mem_union_left s' hmem)
  have hg' (i : ι) (hi : i ∉ s ∪ s') : g (l i) = 0 :=
    hs' i fun hmem ↦ hi (Finset.mem_union_right s hmem)
  have hfg (i : ι) (hi : i ∉ s ∪ s') : f (l i) + g (l i) = 0 := by
    rw [hf' i hi, hg' i hi, add_zero]
  rw [tally_eq_sum hf', tally_eq_sum hg', tally_eq_sum hfg, Finset.sum_add_distrib]

/-- Only the threads that have moved contribute anything. -/
theorem Steps.few {tstep : σ → τ → σ → τ → Prop} {c d : Config ι σ τ} (h : Steps tstep c d)
    (hstart : ∀ i, f (c.locals i) = 0) : Few f d.locals :=
  h.invariant (I := fun x ↦ Few f x.locals) (fun _ i _ t' hfew _ ↦ hfew.update i t')
    ⟨∅, fun i _ ↦ hstart i⟩

/-- **Every contribution is counted once**, in any run and any order. -/
theorem Steps.tally {tstep : σ → τ → σ → τ → Prop} {total : σ → M}
    (hstep : ∀ {s t s' t'}, tstep s t s' t' → total s' + f t = total s + f t')
    {c d : Config ι σ τ} (h : Steps tstep c d) (hstart : ∀ i, f (c.locals i) = 0) :
    total d.shared = total c.shared + Interleaving.tally f d.locals := by
  induction h with
  | refl =>
    have hout (i : ι) (_ : i ∉ (∅ : Finset ι)) : f (c.locals i) = 0 := hstart i
    rw [tally_eq_sum hout, Finset.sum_empty, add_zero]
  | @tail d e hcd hde ih =>
    obtain ⟨i, s', t', ht, rfl⟩ := hde
    have hsum : total s' + f (d.locals i) =
        total c.shared + Interleaving.tally f (Function.update d.locals i t') + f (d.locals i) :=
      calc total s' + f (d.locals i)
          = total d.shared + f t' := hstep ht
        _ = total c.shared + (Interleaving.tally f d.locals + f t') := by rw [ih, add_assoc]
        _ = total c.shared + Interleaving.tally f (Function.update d.locals i t') +
              f (d.locals i) := by rw [← tally_update (Steps.few hcd hstart), add_assoc]
    exact add_right_cancel hsum

end Interleaving
