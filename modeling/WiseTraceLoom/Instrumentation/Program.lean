import WiseTraceLoom.Instrumentation.FailOpen
import WiseTraceLoom.Instrumentation.Identity
import WiseTraceLoom.Lib.Bracketed

/-!
# Programs of blocks

A program nests blocks and bound trace contexts in any way, one after the other and inside each
other; code of the host may raise anywhere, and anything around it may catch what was raised.

The trace context is a variable that every block sets and resets.  What the variable holds when a
block is entered is nevertheless a matter of the text of the program: what the innermost block
around it binds (`Program.Encloses`).  And the blocks that are entered are left one inside the other
(`Brackets.Bracketed`), each with one span emitted.  `trace_tree` puts this together.
-/

set_option autoImplicit false

namespace WiseTraceLoom

open Brackets

variable {ε K σ α : Type}

/-! ## Programs -/

/-- A program of the host with instrumented blocks in it. -/
inductive Program (ε K σ : Type) where
  /-- Code without blocks, which may raise. -/
  | action (f : σ → Except ε Unit × σ)
  | seq (p q : Program ε K σ)
  | branch (cond : σ → Bool) (p q : Program ε K σ)
  /-- `try: p except: q`, for the exceptions that are caught here. -/
  | tryExcept (p : Program ε K σ) (catches : ε → Bool) (q : Program ε K σ)
  /-- `try: p finally: q`. -/
  | tryFinally (p q : Program ε K σ)
  | block (b : Block ε K) (p : Program ε K σ)
  | bound (traceId spanId : Str) (tracestate : Option Str) (p : Program ε K σ)

/-- Running a program. -/
def Program.run : Program ε K σ → Prog ε K σ Unit
  | .action f => hostBody f
  | .seq p q => fun w ↦
    match p.run w with
    | (.ok (), w') => q.run w'
    | (.error raised, w') => (.error raised, w')
  | .branch cond p q => fun w ↦ if cond w.host then p.run w else q.run w
  | .tryExcept p catches q => fun w ↦
    match p.run w with
    | (.ok (), w') => (.ok (), w')
    | (.error raised, w') => if catches raised.exc then q.run w' else (.error raised, w')
  | .tryFinally p q => fun w ↦
    let (r, w') := p.run w
    match q.run w' with
    | (.ok (), w'') => (r, w'')
    | (.error raised, w'') => (.error raised, w'')
  | .block b p => b.run p.run
  | .bound traceId spanId tracestate p => boundTraceContext traceId spanId tracestate p.run

/-- The blocks that are entered and left while a program runs. -/
def Program.trace : Program ε K σ → World K σ → List (Bracket (Entered ε K))
  | .action _, _ => []
  | .seq p q, w => p.trace w ++
    match p.run w with
    | (.ok (), w') => q.trace w'
    | (.error _, _) => []
  | .branch cond p q, w => if cond w.host then p.trace w else q.trace w
  | .tryExcept p catches q, w => p.trace w ++
    match p.run w with
    | (.ok (), _) => []
    | (.error raised, w') => if catches raised.exc then q.trace w' else []
  | .tryFinally p q, w => p.trace w ++ q.trace (p.run w).2
  | .block b p, w =>
    match b.constructError with
    | some _ => []
    | none => bracket ⟨b, w.context⟩ (p.trace { w with context := Entered.inner ⟨b, w.context⟩ })
  | .bound traceId spanId tracestate p, w =>
    p.trace { w with context := ⟨some traceId, some spanId, tracestate⟩ }

/-- The blocks of a program, as they stand in its text. -/
def Program.blocks : Program ε K σ → List (Block ε K)
  | .action _ => []
  | .seq p q => p.blocks ++ q.blocks
  | .branch _ p q => p.blocks ++ q.blocks
  | .tryExcept p _ q => p.blocks ++ q.blocks
  | .tryFinally p q => p.blocks ++ q.blocks
  | .block b p => b :: p.blocks
  | .bound _ _ _ p => p.blocks

/-- `p.Encloses context e`: the block of `e` stands in `p`, and `e.context` is what the innermost
block around it binds; `context` is bound around `p`. -/
inductive Program.Encloses : Program ε K σ → TraceContext → Entered ε K → Prop
  | here {b : Block ε K} {p : Program ε K σ} {context : TraceContext} :
      Encloses (.block b p) context ⟨b, context⟩
  | block {b : Block ε K} {p : Program ε K σ} {context : TraceContext} {e : Entered ε K}
      (h : p.Encloses (Entered.inner ⟨b, context⟩) e) : Encloses (.block b p) context e
  | bound {traceId spanId : Str} {tracestate : Option Str} {p : Program ε K σ}
      {context : TraceContext} {e : Entered ε K}
      (h : p.Encloses ⟨some traceId, some spanId, tracestate⟩ e) :
      Encloses (.bound traceId spanId tracestate p) context e
  | seqLeft {p q : Program ε K σ} {context : TraceContext} {e : Entered ε K}
      (h : p.Encloses context e) : Encloses (.seq p q) context e
  | seqRight {p q : Program ε K σ} {context : TraceContext} {e : Entered ε K}
      (h : q.Encloses context e) : Encloses (.seq p q) context e
  | branchLeft {cond : σ → Bool} {p q : Program ε K σ} {context : TraceContext} {e : Entered ε K}
      (h : p.Encloses context e) : Encloses (.branch cond p q) context e
  | branchRight {cond : σ → Bool} {p q : Program ε K σ} {context : TraceContext}
      {e : Entered ε K} (h : q.Encloses context e) : Encloses (.branch cond p q) context e
  | tryBody {p q : Program ε K σ} {catches : ε → Bool} {context : TraceContext} {e : Entered ε K}
      (h : p.Encloses context e) : Encloses (.tryExcept p catches q) context e
  | handler {p q : Program ε K σ} {catches : ε → Bool} {context : TraceContext} {e : Entered ε K}
      (h : q.Encloses context e) : Encloses (.tryExcept p catches q) context e
  | finallyBody {p q : Program ε K σ} {context : TraceContext} {e : Entered ε K}
      (h : p.Encloses context e) : Encloses (.tryFinally p q) context e
  | finalizer {p q : Program ε K σ} {context : TraceContext} {e : Entered ε K}
      (h : q.Encloses context e) : Encloses (.tryFinally p q) context e

/-- Spans are emitted one after the other. -/
inductive EmitsAll : List (Entered ε K) → Telemetry K → Telemetry K → Prop
  | nil {t : Telemetry K} : EmitsAll [] t t
  | cons {e : Entered ε K} {l : List (Entered ε K)} {t t' t'' : Telemetry K} (he : e.Emits t t')
      (hl : EmitsAll l t' t'') : EmitsAll (e :: l) t t''

theorem EmitsAll.append {l l' : List (Entered ε K)} {t t' t'' : Telemetry K}
    (h : EmitsAll l t t') (h' : EmitsAll l' t' t'') : EmitsAll (l ++ l') t t'' := by
  induction h with
  | nil => exact h'
  | cons he _ ih => exact .cons he (ih h')

/-! ## Executions -/

/-- `p.Exec w l r w'`: from the world `w` on the program `p` runs through the blocks `l`, and ends
with the outcome `r` in the world `w'`. -/
inductive Program.Exec : Program ε K σ → World K σ → List (Bracket (Entered ε K)) →
    Except (Raised ε) Unit → World K σ → Prop
  | action {f : σ → Except ε Unit × σ} {w : World K σ} :
      Exec (.action f) w [] ((f w.host).1.mapError .host) { w with host := (f w.host).2 }
  | seq {p q : Program ε K σ} {w w' w'' : World K σ} {l l' : List (Bracket (Entered ε K))}
      {r : Except (Raised ε) Unit} (hp : p.Exec w l (.ok ()) w') (hq : q.Exec w' l' r w'') :
      Exec (.seq p q) w (l ++ l') r w''
  | seqRaised {p q : Program ε K σ} {w w' : World K σ} {l : List (Bracket (Entered ε K))}
      {raised : Raised ε} (hp : p.Exec w l (.error raised) w') :
      Exec (.seq p q) w l (.error raised) w'
  | branchLeft {cond : σ → Bool} {p q : Program ε K σ} {w w' : World K σ}
      {l : List (Bracket (Entered ε K))} {r : Except (Raised ε) Unit}
      (hcond : cond w.host = true) (hp : p.Exec w l r w') : Exec (.branch cond p q) w l r w'
  | branchRight {cond : σ → Bool} {p q : Program ε K σ} {w w' : World K σ}
      {l : List (Bracket (Entered ε K))} {r : Except (Raised ε) Unit}
      (hcond : cond w.host = false) (hq : q.Exec w l r w') : Exec (.branch cond p q) w l r w'
  | tryOk {p q : Program ε K σ} {catches : ε → Bool} {w w' : World K σ}
      {l : List (Bracket (Entered ε K))} (hp : p.Exec w l (.ok ()) w') :
      Exec (.tryExcept p catches q) w l (.ok ()) w'
  | caught {p q : Program ε K σ} {catches : ε → Bool} {w w' w'' : World K σ}
      {l l' : List (Bracket (Entered ε K))} {raised : Raised ε} {r : Except (Raised ε) Unit}
      (hp : p.Exec w l (.error raised) w') (hcatches : catches raised.exc = true)
      (hq : q.Exec w' l' r w'') : Exec (.tryExcept p catches q) w (l ++ l') r w''
  | uncaught {p q : Program ε K σ} {catches : ε → Bool} {w w' : World K σ}
      {l : List (Bracket (Entered ε K))} {raised : Raised ε} (hp : p.Exec w l (.error raised) w')
      (hcatches : catches raised.exc = false) :
      Exec (.tryExcept p catches q) w l (.error raised) w'
  | tryFinally {p q : Program ε K σ} {w w' w'' : World K σ} {l l' : List (Bracket (Entered ε K))}
      {r : Except (Raised ε) Unit} (hp : p.Exec w l r w') (hq : q.Exec w' l' (.ok ()) w'') :
      Exec (.tryFinally p q) w (l ++ l') r w''
  | finalizerRaised {p q : Program ε K σ} {w w' w'' : World K σ}
      {l l' : List (Bracket (Entered ε K))} {r : Except (Raised ε) Unit} {raised : Raised ε}
      (hp : p.Exec w l r w') (hq : q.Exec w' l' (.error raised) w'') :
      Exec (.tryFinally p q) w (l ++ l') (.error raised) w''
  | notBuilt {b : Block ε K} {p : Program ε K σ} {w : World K σ} {exc : ε}
      (hb : b.constructError = some exc) : Exec (.block b p) w [] (.error (.sdk exc)) w
  | block {b : Block ε K} {p : Program ε K σ} {w w' : World K σ}
      {l : List (Bracket (Entered ε K))} {r : Except (Raised ε) Unit} {t : Telemetry K}
      (hp : p.Exec { w with context := Entered.inner ⟨b, w.context⟩ } l r w')
      (ht : Entered.Emits ⟨b, w.context⟩ w'.telemetry t) :
      Exec (.block b p) w (bracket ⟨b, w.context⟩ l) (b.relay r) ⟨w'.host, w.context, t⟩
  | bound {traceId spanId : Str} {tracestate : Option Str} {p : Program ε K σ} {w w' : World K σ}
      {l : List (Bracket (Entered ε K))} {r : Except (Raised ε) Unit}
      (hp : p.Exec { w with context := ⟨some traceId, some spanId, tracestate⟩ } l r w') :
      Exec (.bound traceId spanId tracestate p) w l r { w' with context := w.context }

/-- **Running a program executes it.** -/
theorem Program.exec (p : Program ε K σ) (w : World K σ) :
    p.Exec w (p.trace w) (p.run w).1 (p.run w).2 := by
  induction p generalizing w with
  | action f => exact .action
  | seq p q hp hq =>
    have hw := hp w
    simp only [Program.run, Program.trace]
    rcases hr : p.run w with ⟨raised | _, w'⟩ <;> rw [hr] at hw
    · simpa using hw.seqRaised
    · exact hw.seq (hq w')
  | branch cond p q hp hq =>
    simp only [Program.run, Program.trace]
    cases hcond : cond w.host with
    | true => exact .branchLeft hcond (hp w)
    | false => exact .branchRight hcond (hq w)
  | tryExcept p catches q hp hq =>
    have hw := hp w
    simp only [Program.run, Program.trace]
    rcases hr : p.run w with ⟨raised | _, w'⟩ <;> rw [hr] at hw
    · cases hcatches : catches raised.exc with
      | true => simpa [hcatches] using hw.caught hcatches (hq w')
      | false => simpa [hcatches] using hw.uncaught hcatches
    · simpa using hw.tryOk
  | tryFinally p q hp hq =>
    have hw' := hq (p.run w).2
    simp only [Program.run, Program.trace]
    rcases hr : q.run (p.run w).2 with ⟨raised | _, w'⟩ <;> rw [hr] at hw'
    · exact (hp w).finalizerRaised hw'
    · exact (hp w).tryFinally hw'
  | block b p hp =>
    simp only [Program.run, Program.trace]
    cases hb : b.constructError with
    | some exc =>
      rw [Block.run_error hb]
      exact .notBuilt hb
    | none =>
      obtain ⟨t, ht, hrun⟩ := Block.run_eq hb p.run w
      rw [hrun]
      exact .block (hp _) ht
  | bound traceId spanId tracestate p hp => exact .bound (hp _)

/-- **The trace context is back after a program**, however it has ended. -/
theorem Program.Exec.context {p : Program ε K σ} {w w' : World K σ}
    {l : List (Bracket (Entered ε K))} {r : Except (Raised ε) Unit} (h : p.Exec w l r w') :
    w'.context = w.context := by
  induction h with
  | action => rfl
  | seq _ _ hp hq => exact hq.trans hp
  | seqRaised _ hp => exact hp
  | branchLeft _ _ hp => exact hp
  | branchRight _ _ hq => exact hq
  | tryOk _ hp => exact hp
  | caught _ _ _ hp hq => exact hq.trans hp
  | uncaught _ _ hp => exact hp
  | tryFinally _ _ hp hq => exact hq.trans hp
  | finalizerRaised _ _ hp hq => exact hq.trans hp
  | notBuilt => rfl
  | block => rfl
  | bound => rfl

/-- **Blocks are left in the opposite order** to the one in which they were entered. -/
theorem Program.Exec.bracketed {p : Program ε K σ} {w w' : World K σ}
    {l : List (Bracket (Entered ε K))} {r : Except (Raised ε) Unit} (h : p.Exec w l r w') :
    Bracketed l := by
  induction h with
  | action => exact .nil
  | seq _ _ hp hq => exact hp.append hq
  | seqRaised _ hp => exact hp
  | branchLeft _ _ hp => exact hp
  | branchRight _ _ hq => exact hq
  | tryOk _ hp => exact hp
  | caught _ _ _ hp hq => exact hp.append hq
  | uncaught _ _ hp => exact hp
  | tryFinally _ _ hp hq => exact hp.append hq
  | finalizerRaised _ _ hp hq => exact hp.append hq
  | notBuilt => exact .nil
  | block _ _ hp => exact .block _ hp
  | bound _ hp => exact hp

/-- **A block finds the context that its innermost enclosing block binds.** -/
theorem Program.Exec.encloses {p : Program ε K σ} {w w' : World K σ}
    {l : List (Bracket (Entered ε K))} {r : Except (Raised ε) Unit} (h : p.Exec w l r w') :
    ∀ e ∈ opensOf l, p.Encloses w.context e := by
  induction h with
  | action => exact List.forall_mem_nil _
  | seq h _ hp hq =>
    rw [opensOf_append, List.forall_mem_append]
    exact ⟨fun e he ↦ .seqLeft (hp e he), fun e he ↦ .seqRight (h.context ▸ hq e he)⟩
  | seqRaised _ hp => exact fun e he ↦ .seqLeft (hp e he)
  | branchLeft _ _ hp => exact fun e he ↦ .branchLeft (hp e he)
  | branchRight _ _ hq => exact fun e he ↦ .branchRight (hq e he)
  | tryOk _ hp => exact fun e he ↦ .tryBody (hp e he)
  | caught h _ _ hp hq =>
    rw [opensOf_append, List.forall_mem_append]
    exact ⟨fun e he ↦ .tryBody (hp e he), fun e he ↦ .handler (h.context ▸ hq e he)⟩
  | uncaught _ _ hp => exact fun e he ↦ .tryBody (hp e he)
  | tryFinally h _ hp hq =>
    rw [opensOf_append, List.forall_mem_append]
    exact ⟨fun e he ↦ .finallyBody (hp e he), fun e he ↦ .finalizer (h.context ▸ hq e he)⟩
  | finalizerRaised h _ hp hq =>
    rw [opensOf_append, List.forall_mem_append]
    exact ⟨fun e he ↦ .finallyBody (hp e he), fun e he ↦ .finalizer (h.context ▸ hq e he)⟩
  | notBuilt => exact List.forall_mem_nil _
  | block _ _ hp =>
    rw [opensOf_bracket, List.forall_mem_cons]
    exact ⟨.here, fun e he ↦ .block (hp e he)⟩
  | bound _ hp => exact fun e he ↦ .bound (hp e he)

/-- **Every block emits its span when it is left**, and nothing else is emitted. -/
theorem Program.Exec.emits {p : Program ε K σ} {w w' : World K σ}
    {l : List (Bracket (Entered ε K))} {r : Except (Raised ε) Unit} (h : p.Exec w l r w') :
    EmitsAll (closesOf l) w.telemetry w'.telemetry := by
  induction h with
  | action => exact .nil
  | seq _ _ hp hq => exact closesOf_append _ _ ▸ hp.append hq
  | seqRaised _ hp => exact hp
  | branchLeft _ _ hp => exact hp
  | branchRight _ _ hq => exact hq
  | tryOk _ hp => exact hp
  | caught _ _ _ hp hq => exact closesOf_append _ _ ▸ hp.append hq
  | uncaught _ _ hp => exact hp
  | tryFinally _ _ hp hq => exact closesOf_append _ _ ▸ hp.append hq
  | finalizerRaised _ _ hp hq => exact closesOf_append _ _ ▸ hp.append hq
  | notBuilt => exact .nil
  | block _ ht hp => exact closesOf_bracket _ _ ▸ hp.append (.cons ht .nil)
  | bound _ hp => exact hp

/-- A block of the text is entered once at most. -/
theorem Program.Exec.blocks {p : Program ε K σ} {w w' : World K σ}
    {l : List (Bracket (Entered ε K))} {r : Except (Raised ε) Unit} (h : p.Exec w l r w') :
    ((opensOf l).map Entered.block).Sublist p.blocks := by
  induction h with
  | action => exact List.Sublist.refl _
  | seq _ _ hp hq =>
    rw [opensOf_append, List.map_append]
    exact hp.append hq
  | seqRaised _ hp => exact hp.trans (List.sublist_append_left _ _)
  | branchLeft _ _ hp => exact hp.trans (List.sublist_append_left _ _)
  | branchRight _ _ hq => exact hq.trans (List.sublist_append_right _ _)
  | tryOk _ hp => exact hp.trans (List.sublist_append_left _ _)
  | caught _ _ _ hp hq =>
    rw [opensOf_append, List.map_append]
    exact hp.append hq
  | uncaught _ _ hp => exact hp.trans (List.sublist_append_left _ _)
  | tryFinally _ _ hp hq =>
    rw [opensOf_append, List.map_append]
    exact hp.append hq
  | finalizerRaised _ _ hp hq =>
    rw [opensOf_append, List.map_append]
    exact hp.append hq
  | notBuilt => exact List.nil_sublist _
  | block _ _ hp =>
    rw [opensOf_bracket, List.map_cons]
    exact hp.cons_cons _
  | bound _ hp => exact hp

/-! ## The trace tree -/

/-- `generate_span_id()` of a block. -/
def Block.spanId (b : Block ε K) : Str := b.sdk.newSpanId

/-- **The spans form the tree that the text of the program shows.**  Of every block that is entered:
the parent is the span id that the innermost enclosing block binds, and the trace is the one that it
binds, or a new one if none or an empty one is bound.  Every such block emits its span once, with
everything inside closed before; and all contexts are restored. -/
theorem trace_tree (p : Program ε K σ) (w : World K σ) (hids : (p.blocks.map Block.spanId).Nodup) :
    (∀ e ∈ opensOf (p.trace w), p.Encloses w.context e ∧
      e.identity.parentSpanId = e.context.spanId ∧
      (∀ t, e.context.traceId = some t → t ≠ [] → e.identity.traceId = t) ∧
      (e.context.traceId = none ∨ e.context.traceId = some [] →
        e.identity.traceId = e.block.sdk.newTraceId)) ∧
    (EmitsAll (closesOf (p.trace w)) w.telemetry (p.run w).2.telemetry ∧
      ((closesOf (p.trace w)).map fun e ↦ e.block.spanId).Nodup ∧
      (closesOf (p.trace w)).Perm (opensOf (p.trace w)) ∧
      ∀ e before after, p.trace w = before ++ .opened e :: after →
        ∃ inside rest, after = inside ++ .closed e :: rest ∧ Bracketed inside) ∧
    ∀ (q : Program ε K σ) (w' : World K σ), (q.run w').2.context = w'.context := by
  have hexec := p.exec w
  have hperm := hexec.bracketed.perm
  refine ⟨fun e he ↦ ⟨hexec.encloses e he, rfl, ?_, ?_⟩, ⟨hexec.emits, ?_, hperm, ?_⟩,
    fun q w' ↦ (q.exec w').context⟩
  · rintro t ht hne
    obtain ⟨c, cs, rfl⟩ := List.exists_cons_of_ne_nil hne
    rw [Entered.identity, currentTraceId, ht]
  · rintro (ht | ht) <;> rw [Entered.identity, currentTraceId, ht]
  · have hentered : ((opensOf (p.trace w)).map fun e ↦ e.block.spanId).Nodup := by
      have hsub := (hexec.blocks.map Block.spanId).nodup hids
      rwa [List.map_map] at hsub
    exact (hperm.map fun e ↦ e.block.spanId).nodup_iff.mpr hentered
  · exact fun e before after h ↦ hexec.bracketed.closes h

/-! ### Two programs -/

/-- An SDK whose ids are made of one letter. -/
def letterSdk (c : Char) : Sdk Str ℕ :=
  { quietSdk with newTraceId := List.replicate 32 c, newSpanId := List.replicate 16 c }

/-- A step of an agent. -/
def plannerStep (c : Char) : Block Str ℕ :=
  .agent (letterSdk c) { agentId := "a1".toList, agentName := "planner".toList } .decorator

/-- The agent calls a tool, which raises, and then asks a model instead. -/
def planner : Program Str ℕ ℕ :=
  .block (plannerStep 'a') (.tryExcept
    (.block (.tool (letterSdk 'b') { toolName := "fetch".toList } .decorator)
      (.action fun n ↦ (.error "timeout".toList, n)))
    (fun _ ↦ true)
    (.block (.llm (letterSdk 'c') { providerName := "acme".toList, requestModel := "m1".toList }
      .decorator) (.action fun n ↦ (.ok (), n + 1))))

/-- A world in which nothing is bound. -/
def unbound : World ℕ ℕ := ⟨0, ⟨none, none, none⟩, ⟨[], [], [], [], []⟩⟩

/-- The tool and the model are children of the agent, and their spans are emitted before its own. -/
theorem planner_tree : ((closesOf (planner.trace unbound)).map Entered.identity =
      [⟨List.replicate 16 'b', List.replicate 32 'a', some (List.replicate 16 'a')⟩,
        ⟨List.replicate 16 'c', List.replicate 32 'a', some (List.replicate 16 'a')⟩,
        ⟨List.replicate 16 'a', List.replicate 32 'a', none⟩]) ∧
    ((closesOf (planner.trace unbound)).map fun e ↦ e.block.spanId).Nodup :=
  ⟨rfl, (trace_tree planner unbound (by decide)).2.1.2.1⟩

/-- An agent inside `bound_trace_context("", "x")`. -/
def anonymous : Program Str ℕ ℕ :=
  .bound [] ['x'] none (.block (plannerStep 'a') (.action fun n ↦ (.ok (), n)))

/-- **An empty trace id is not passed on**: the agent starts a trace of its own. -/
theorem empty_trace_id : (anonymous.blocks.map Block.spanId).Nodup ∧
    (∀ b ∈ anonymous.blocks, b.constructError = none) ∧
    ∃ e ∈ opensOf (anonymous.trace unbound), anonymous.Encloses unbound.context e ∧
      e.context.traceId = some [] ∧ e.identity.traceId = List.replicate 32 'a' := by
  refine ⟨by decide, ?_, ⟨plannerStep 'a', ⟨some [], some ['x'], none⟩⟩, ?_, .bound .here, rfl, rfl⟩
  · intro b hb
    obtain rfl := List.mem_singleton.mp hb
    rfl
  · exact List.mem_singleton_self _

end WiseTraceLoom
