import WiseTraceLoom.Instrumentation.Entered

/-!
# Does an instrumented program do what the bare one does?

Whatever the steps between entering and leaving a block raise is swallowed, with two exceptions: the
span is built before anything is there to catch an exception, and `tool_call` asks the exception of
its body for its text while that exception is propagating.

`instrument_iff` says that these are the only ones: a nest of blocks ends as the bare body does, and
leaves the host's state as it does, if and only if every span can be built and, when the body
raises, no `tool_call` of the nest fails to get the text of the exception.  The lemma about a single
block is `Block.run_eq`: apart from telemetry and trace context, a block only relays the outcome of
its body.
-/

set_option autoImplicit false

namespace WiseTraceLoom

variable {ε K σ α : Type}

/-! ## Nests -/

/-- A nest that ends as its body does: the same value or the same exception of the host, and the
same state of the host. -/
def Transparent (blocks : List (Block ε K)) (body : σ → Except ε α × σ) (w : World K σ) : Prop :=
  (instrument blocks (hostBody body) w).1 = (body w.host).1.mapError .host ∧
    (instrument blocks (hostBody body) w).2.host = (body w.host).2

/-- What a nest depends on: the spans of its blocks, and the text of an exception. -/
def Describable (blocks : List (Block ε K)) (r : Except ε α) : Prop :=
  (∀ b ∈ blocks, b.constructError = none) ∧
    ∀ exc, r = .error exc → ∀ b ∈ blocks, b.CanDescribe exc

theorem describable_cons {b : Block ε K} {blocks : List (Block ε K)} {r : Except ε α} :
    Describable (b :: blocks) r ↔ (b.constructError = none ∧
      ∀ exc, r = .error exc → b.CanDescribe exc) ∧ Describable blocks r := by
  simp only [Describable, List.forall_mem_cons]
  constructor
  · rintro ⟨⟨hb, hblocks⟩, hr⟩
    exact ⟨⟨hb, fun exc h ↦ (hr exc h).1⟩, hblocks, fun exc h ↦ (hr exc h).2⟩
  · rintro ⟨⟨hb, hbr⟩, hblocks, hr⟩
    exact ⟨⟨hb, hblocks⟩, fun exc h ↦ ⟨hbr exc h, hr exc h⟩⟩

/-- **When instrumentation fails open.**  A nest of blocks ends exactly as the bare body does, if
and only if the span of every block can be built and, when the body raises, every `tool_call` of the
nest can get the text of the exception.  No other step of the SDK makes a difference. -/
theorem instrument_iff (blocks : List (Block ε K)) (body : σ → Except ε α × σ) (w : World K σ) :
    Transparent blocks body w ↔ Describable blocks (body w.host).1 := by
  induction blocks generalizing w with
  | nil => simp [Transparent, Describable, instrument, hostBody]
  | cons b blocks ih =>
    rw [describable_cons]
    have hrun : instrument (b :: blocks) (hostBody body) w =
      b.run (instrument blocks (hostBody body)) w := rfl
    cases hb : b.constructError with
    | some exc =>
      -- the body is not run, and no outcome of a body is an exception of the SDK
      rw [Transparent, hrun, Block.run_error hb]
      constructor
      · rintro ⟨hout, -⟩
        cases hr : (body w.host).1 <;> simp [hr, Except.mapError] at hout
      · rintro ⟨⟨hnone, -⟩, -⟩
        simp at hnone
    | none =>
      obtain ⟨t, -, heq⟩ := Block.run_eq hb (instrument blocks (hostBody body)) w
      have hinner := ih { w with context := (⟨b, w.context⟩ : Entered ε K).inner }
      rw [Transparent] at hinner
      rw [Transparent, hrun, heq, ← hinner]
      cases hr : (body w.host).1 with
      | ok value =>
        simp only [Except.mapError]
        constructor
        · rintro ⟨hok, hsame⟩
          exact ⟨⟨trivial, by simp⟩, Block.relay_eq_ok hok, hsame⟩
        · rintro ⟨-, hok, hsame⟩
          exact ⟨by rw [hok, Block.relay_ok], hsame⟩
      | error exc =>
        simp only [Except.mapError]
        constructor
        · rintro ⟨herror, hsame⟩
          obtain ⟨hraised, hdescribe⟩ := Block.relay_eq_host herror
          refine ⟨⟨trivial, fun exc' h ↦ ?_⟩, hraised, hsame⟩
          rwa [← Except.error.inj h]
        · rintro ⟨⟨-, hdescribe⟩, hraised, hsame⟩
          have hrelay : b.relay (.error (.host exc) : Except (Raised ε) α) = .error (.host exc) :=
            Block.relay_error (hdescribe exc rfl)
          exact ⟨by rw [hraised, hrelay], hsame⟩

/-! ### A tool of a type that is not listed -/

/-- An SDK none of whose steps raises on its own account. -/
def quietSdk : Sdk Str ℕ where
  newTraceId := List.replicate 32 'a'
  newSpanId := List.replicate 16 'b'
  startedAt := noon
  endedAt := noon
  validationError field value := field ++ ": ".toList ++ value
  construct := none
  tenancyError := TenancyError.message
  str := .ok
  typeName _ := "Exception".toList
  logDump _ := .ok []
  logInfo _ _ := .ok ()
  exportSpan _ := .ok ()
  storeDump _ := .ok []
  enqueueAppend _ := .ok ()
  estimateCostUsd _ := .ok none
  recordSpend _ _ := .ok ()
  checkSpendAnomaly _ := .ok ()
  warning _ := .ok ()

/-- A body that counts a call and returns 7, inside a `tool_call` of type `http`: the body is not
run, and the program ends with a validation error. -/
theorem toolCall_raises : let w : World ℕ ℕ := ⟨0, ⟨none, none, none⟩, ⟨[], [], [], [], []⟩⟩
    let nest := [Block.tool quietSdk ⟨"fetch".toList, "http".toList, none, none, none, none⟩
      (.context id)]
    let body : ℕ → Except Str ℕ × ℕ := fun calls ↦ (.ok 7, calls + 1)
    body w.host = (.ok 7, 1) ∧
      (instrument nest (hostBody body) w).1 = .error (.sdk "tool_type: http".toList) ∧
      (instrument nest (hostBody body) w).2.host = 0 ∧ ¬ Transparent nest body w := by
  refine ⟨rfl, rfl, rfl, fun h ↦ ?_⟩
  have hout : (Except.error (.sdk "tool_type: http".toList) : Except (Raised Str) ℕ) = .ok 7 := h.1
  simp at hout

end WiseTraceLoom
