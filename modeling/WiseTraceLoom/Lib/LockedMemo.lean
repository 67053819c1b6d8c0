import WiseTraceLoom.Lib.Interleaving

/-!
# A memo table behind a lock

Any number of threads ask for the values of keys.  A thread takes the lock, looks whether the value
is there already, and otherwise makes it, in steps that may change the world and any of which may
fail, and stores it; then it gives the lock back.

A `Maker` says how a value is made.  What is known of a value that is half made and of one that is
finished is up to the user (`Keeps`).

* `Ok.steps` — the invariant `Ok` holds in every state of every run.
* `Ok.agree` — all threads that have asked for one key have got the same value.
* `Ok.whole` — what they have got was finished.
* `Ok.held` — the lock is never left behind, also not by a thread that has failed.
-/

set_option autoImplicit false

namespace LockedMemo

open Interleaving

variable {κ ν β ω : Type}

/-! ## The protocol -/

/-- How a value is made. -/
structure Maker (κ ν β ω : Type) where
  /-- Nothing has been done. -/
  start : β
  /-- One step for a key, in a world. -/
  step : κ → ω → β → ω → β → Prop
  /-- The value, once it is finished. -/
  result : β → Option ν

/-- What the threads share. -/
structure State (κ ν ω : Type) where
  /-- Is the lock taken? -/
  locked : Bool
  /-- The values that are known. -/
  memo : κ → Option ν
  /-- Everything else. -/
  world : ω

/-- Where a thread stands. -/
inductive Call (κ ν β : Type) where
  | calling (k : κ)
  /-- It has the lock. -/
  | entered (k : κ)
  | making (k : κ) (b : β)
  /-- It has the value, and still has the lock. -/
  | leaving (k : κ) (v : ν)
  | returned (k : κ) (v : ν)
  /-- A step has failed, and it still has the lock. -/
  | failing (k : κ)
  | raised (k : κ)

/-- Does the thread have the lock? -/
def Call.inside : Call κ ν β → Bool
  | .entered _ => true
  | .making _ _ => true
  | .leaving _ _ => true
  | .failing _ => true
  | _ => false

/-- One step of a thread. -/
inductive Step [DecidableEq κ] (m : Maker κ ν β ω) :
    State κ ν ω → Call κ ν β → State κ ν ω → Call κ ν β → Prop
  | acquire {s : State κ ν ω} {k : κ} (h : s.locked = false) :
      Step m s (.calling k) { s with locked := true } (.entered k)
  | hit {s : State κ ν ω} {k : κ} {v : ν} (h : s.memo k = some v) :
      Step m s (.entered k) s (.leaving k v)
  | miss {s : State κ ν ω} {k : κ} (h : s.memo k = none) :
      Step m s (.entered k) s (.making k m.start)
  | make {s : State κ ν ω} {k : κ} {b b' : β} {w : ω} (h : m.step k s.world b w b') :
      Step m s (.making k b) { s with world := w } (.making k b')
  | fail {s : State κ ν ω} {k : κ} {b : β} : Step m s (.making k b) s (.failing k)
  | store {s : State κ ν ω} {k : κ} {b : β} {v : ν} (h : m.result b = some v) :
      Step m s (.making k b) { s with memo := Function.update s.memo k (some v) } (.leaving k v)
  | release {s : State κ ν ω} {k : κ} {v : ν} :
      Step m s (.leaving k v) { s with locked := false } (.returned k v)
  | abandon {s : State κ ν ω} {k : κ} :
      Step m s (.failing k) { s with locked := false } (.raised k)

/-! ## The invariant -/

/-- What is known of values: `Part` of one that is being made, `Whole` of one that is finished. -/
structure Keeps (m : Maker κ ν β ω) (Part : κ → ω → β → Prop) (Whole : κ → ω → ν → Prop) :
    Prop where
  /-- Nothing has to be known at the start. -/
  start : ∀ k w, Part k w m.start
  /-- A step keeps what is known of the value that is made. -/
  step : ∀ {k w b w' b'}, Part k w b → m.step k w b w' b' → Part k w' b'
  /-- It is enough in the end. -/
  result : ∀ {k w b v}, Part k w b → m.result b = some v → Whole k w v
  /-- A step does no harm to finished values. -/
  keep : ∀ {k w b w' b' k' v}, m.step k w b w' b' → Whole k' w v → Whole k' w' v

variable {Part : κ → ω → β → Prop} {Whole : κ → ω → ν → Prop}

/-- What a thread knows. -/
def Call.Knows (Part : κ → ω → β → Prop) (s : State κ ν ω) : Call κ ν β → Prop
  | .making k b => s.memo k = none ∧ Part k s.world b
  | .leaving k v => s.memo k = some v
  | .returned k v => s.memo k = some v
  | _ => True

variable {ι : Type}

/-- The invariant. -/
structure Ok (Part : κ → ω → β → Prop) (Whole : κ → ω → ν → Prop)
    (c : Config ι (State κ ν ω) (Call κ ν β)) : Prop where
  /-- Whoever is inside has taken the lock. -/
  locked : ∀ i, (c.locals i).inside = true → c.shared.locked = true
  /-- Only one thread is inside. -/
  alone : ∀ i j, (c.locals i).inside = true → (c.locals j).inside = true → i = j
  /-- If the lock is taken, somebody is inside. -/
  held : c.shared.locked = true → ∃ i, (c.locals i).inside = true
  /-- What is in the table is finished. -/
  memo : ∀ k v, c.shared.memo k = some v → Whole k c.shared.world v
  /-- What every thread knows. -/
  knows : ∀ i, (c.locals i).Knows Part c.shared

/-- The invariant holds when nobody has asked yet. -/
theorem ok_init {c : Config ι (State κ ν ω) (Call κ ν β)} (hlocked : c.shared.locked = false)
    (hmemo : ∀ k, c.shared.memo k = none) (hcalls : ∀ i, ∃ k, c.locals i = .calling k) :
    Ok Part Whole c where
  locked i hi := by
    obtain ⟨k, hk⟩ := hcalls i
    simp [hk, Call.inside] at hi
  alone i j hi := by
    obtain ⟨k, hk⟩ := hcalls i
    simp [hk, Call.inside] at hi
  held h := by simp [hlocked] at h
  memo k v hk := by simp [hmemo k] at hk
  knows i := by
    obtain ⟨k, hk⟩ := hcalls i
    rw [hk]
    trivial

/-- A thread that is not inside knows what it knows for as long as nothing is taken out of the
table. -/
theorem Call.Knows.frame {s s' : State κ ν ω} {r : Call κ ν β} (h : r.Knows Part s)
    (hout : r.inside = false) (hgrows : ∀ k v, s.memo k = some v → s'.memo k = some v) :
    r.Knows Part s' := by
  cases r with
  | returned k v => exact hgrows k v h
  | calling k | raised k => trivial
  | entered k | making k b | leaving k v | failing k => simp [inside] at hout

variable {c : Config ι (State κ ν ω) (Call κ ν β)} {i : ι}

/-- **All get the same value.** -/
theorem Ok.agree (hc : Ok Part Whole c) {j : ι} {k : κ} {v v' : ν}
    (hi : c.locals i = .returned k v) (hj : c.locals j = .returned k v') : v = v' := by
  have hv := hc.knows i
  have hv' := hc.knows j
  rw [hi] at hv
  rw [hj] at hv'
  exact Option.some.inj (Eq.trans (Eq.symm hv) hv')

/-- **What they get is finished.** -/
theorem Ok.whole (hc : Ok Part Whole c) {k : κ} {v : ν} (hi : c.locals i = .returned k v) :
    Whole k c.shared.world v := by
  have hv := hc.knows i
  rw [hi] at hv
  exact hc.memo k v hv

variable [DecidableEq ι] {s' : State κ ν ω} {r' : Call κ ν β}

/-- **A step of the thread that is inside, or comes in.** -/
theorem Ok.set (hc : Ok Part Whole c) (i : ι) (s' : State κ ν ω) (r' : Call κ ν β)
    (hin : (c.locals i).inside = true ∨ c.shared.locked = false) (hlocked : s'.locked = r'.inside)
    (hgrows : ∀ k v, c.shared.memo k = some v → s'.memo k = some v)
    (hmemo : ∀ k v, s'.memo k = some v → Whole k s'.world v) (hknows : r'.Knows Part s') :
    Ok Part Whole (c.set i s' r') := by
  have hothers (j : ι) (hji : j ≠ i) : (c.locals j).inside = false := by
    by_contra hj
    rw [Bool.not_eq_false] at hj
    rcases hin with hi | hfree
    · exact hji (hc.alone j i hj hi)
    · exact absurd (hc.locked j hj) (by simp [hfree])
  have hself (j : ι) (hj : ((c.set i s' r').locals j).inside = true) : j = i := by
    by_contra hji
    rw [Config.set_locals_ne c s' r' hji, hothers j hji] at hj
    cases hj
  refine ⟨fun j hj ↦ ?_, fun j k hj hk ↦ (hself j hj).trans (hself k hk).symm, fun h ↦ ⟨i, ?_⟩,
    hmemo, ?_⟩
  · rw [hself j hj, Config.set_locals_self] at hj
    exact hlocked.trans hj
  · rw [Config.set_locals_self]
    exact hlocked.symm.trans h
  · exact Config.forall_locals (P := fun _ (r : Call κ ν β) ↦ r.Knows Part s') hknows
      fun j hji ↦ (hc.knows j).frame (hothers j hji) hgrows

variable [DecidableEq κ]

/-- **Every step keeps the invariant.** -/
theorem Ok.step {m : Maker κ ν β ω} (hm : Keeps m Part Whole) (hc : Ok Part Whole c)
    (h : Step m c.shared (c.locals i) s' r') : Ok Part Whole (c.set i s' r') := by
  have hknows := hc.knows i
  have hlocked := hc.locked i
  have hset := hc.set i s' r'
  generalize c.locals i = r at h hknows hlocked hset
  cases h with
  | acquire h => exact hset (.inr h) rfl (fun _ _ hk ↦ hk) hc.memo trivial
  | hit h => exact hset (.inl rfl) (hlocked rfl) (fun _ _ hk ↦ hk) hc.memo h
  | miss h => exact hset (.inl rfl) (hlocked rfl) (fun _ _ hk ↦ hk) hc.memo ⟨h, hm.start _ _⟩
  | make h =>
    exact hset (.inl rfl) (hlocked rfl) (fun _ _ hk ↦ hk) (fun k v hk ↦ hm.keep h (hc.memo k v hk))
      ⟨hknows.1, hm.step hknows.2 h⟩
  | fail => exact hset (.inl rfl) (hlocked rfl) (fun _ _ hk ↦ hk) hc.memo trivial
  | @store k b v h =>
    refine hset (.inl rfl) (hlocked rfl) (fun k' v' hk ↦ ?_) (fun k' v' hk ↦ ?_) ?_
    · have hne : k' ≠ k := by
        rintro rfl
        rw [hknows.1] at hk
        cases hk
      exact (Function.update_of_ne hne _ _).trans hk
    · simp only [Function.update_apply] at hk
      split_ifs at hk with hkk
      · rw [hkk, ← Option.some.inj hk]
        exact hm.result hknows.2 h
      · exact hc.memo k' v' hk
    · exact Function.update_self ..
  | release => exact hset (.inl rfl) rfl (fun _ _ hk ↦ hk) hc.memo hknows
  | abandon => exact hset (.inl rfl) rfl (fun _ _ hk ↦ hk) hc.memo trivial

/-- **Every run keeps the invariant.** -/
theorem Ok.steps {m : Maker κ ν β ω} (hm : Keeps m Part Whole)
    {d : Config ι (State κ ν ω) (Call κ ν β)} (h : Steps (Step m) c d) (hc : Ok Part Whole c) :
    Ok Part Whole d :=
  h.invariant (fun _ _ _ _ hd ↦ hd.step hm) hc

end LockedMemo
