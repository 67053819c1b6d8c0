import WiseTraceLoom.Instrumentation.Relay
import WiseTraceLoom.Lib.ContextVars
import WiseTraceLoom.Lib.Interleaving

/-!
# Concurrent tasks

In `Program` the trace context is a variable that every block sets and puts back.  In the code it is
three context variables, and `bound_trace_context` sets them and resets them with the tokens it got.
Here any number of tasks of one event loop do so at the same time; between two `await`s a task is
not interrupted, and every block is entered and left in one go.  A task may make further tasks,
each of which gets a copy of the context that is current at that moment, or an empty one; with an
empty one it may as well be another process.  Processes send each other messages, with headers that
`inject_traceparent` and `extract_traceparent` write and read.  A message that was sent may arrive
late, more than once, or not at all.

`run_alone` is about one task that is left alone: a program without tasks does what `Program.run`
says, and all context variables are what they were.
-/

set_option autoImplicit false

namespace WiseTraceLoom

open Brackets ContextVars Interleaving Relation

variable {ε K σ ι : Type}

/-! ## The context variables -/

/-- The variables of `wisetraceloom.tracecontext`. -/
inductive TraceVar where
  | traceId
  | spanId
  | tracestate
  deriving DecidableEq

/-- What the variables are in one context. -/
abbrev TraceValues := TraceVar → Option (Option Str)

/-- `current_trace_id`, `current_span_id` and `current_tracestate`. -/
def TraceValues.read (values : TraceValues) : TraceContext :=
  ⟨(values .traceId).join, (values .spanId).join, (values .tracestate).join⟩

/-- What `bound_trace_context` sets. -/
def boundValues (traceId spanId : Str) (tracestate : Option Str) : List (TraceVar × Option Str) :=
  [(.traceId, some traceId), (.spanId, some spanId), (.tracestate, tracestate)]

theorem read_assign (traceId spanId : Str) (tracestate : Option Str) (values : TraceValues) :
    TraceValues.read (assign (boundValues traceId spanId tracestate) values) =
      ⟨some traceId, some spanId, tracestate⟩ := rfl

theorem boundValues_nodup (traceId spanId : Str) (tracestate : Option Str) :
    ((boundValues traceId spanId tracestate).map Prod.fst).Nodup := by
  simp [boundValues]

/-- What a block sets. -/
def Entered.bindings (e : Entered ε K) : List (TraceVar × Option Str) :=
  boundValues (currentTraceId e.block.sdk e.context) e.block.sdk.newSpanId none

theorem Entered.read_bindings (e : Entered ε K) (values : TraceValues) :
    TraceValues.read (assign e.bindings values) = e.inner := rfl

/-- Leaving a block whose body has ended with `r`: this is all that the block does around a body
that ends at once. -/
def Block.leave (b : Block ε K) (context : TraceContext) (r : Except (Raised ε) Unit)
    (t : Telemetry K) : Except (Raised ε) Unit × Telemetry K :=
  let (r', w) := b.run (fun w ↦ (r, w)) (⟨(), context, t⟩ : World K Unit)
  (r', w.telemetry)

theorem Block.leave_eq {b : Block ε K} (h : b.constructError = none) (context : TraceContext)
    (r : Except (Raised ε) Unit) (t : Telemetry K) :
    (b.leave context r t).1 = b.relay r ∧ Entered.Emits ⟨b, context⟩ t (b.leave context r t).2 := by
  obtain ⟨t', ht, hrun⟩ := Block.run_eq h (fun w ↦ (r, w)) (⟨(), context, t⟩ : World K Unit)
  rw [Block.leave, hrun]
  exact ⟨rfl, ht⟩

/-- Running a block is entering it, running its body, and leaving it. -/
theorem Block.run_leave {b : Block ε K} (h : b.constructError = none) (body : Prog ε K σ Unit)
    (w : World K σ) :
    let inner := body { w with context := Entered.inner ⟨b, w.context⟩ }
    b.run body w =
      ((b.leave w.context inner.1 inner.2.telemetry).1,
        ⟨inner.2.host, w.context, (b.leave w.context inner.1 inner.2.telemetry).2⟩) := by
  obtain ⟨host, context, t⟩ := w
  cases b with
  | agent sdk a form =>
    simp only [Block.constructError] at h
    simp only [Block.leave, Block.run, Form.apply_eq, agentStep, spanBlock, h]
    rfl
  | tool sdk a form =>
    simp only [Block.constructError] at h
    simp only [Block.leave, Block.run, Form.apply_eq, toolCall, spanBlock, h]
    rfl
  | llm sdk a form =>
    simp only [Block.constructError] at h
    simp only [Block.leave, Block.run, Form.apply_eq, llmCall, spanBlock, h]
    rfl

/-! ## Tasks -/

/-- A program of the host with instrumented blocks in it, which may make tasks. -/
inductive TaskProgram (ε K σ : Type) where
  /-- Code between two `await`s.  If it has no result, the task has to wait. -/
  | action (f : σ → Option (Except ε Unit × σ))
  | seq (p q : TaskProgram ε K σ)
  | branch (cond : σ → Bool) (p q : TaskProgram ε K σ)
  | tryExcept (p : TaskProgram ε K σ) (catches : ε → Bool) (q : TaskProgram ε K σ)
  | tryFinally (p q : TaskProgram ε K σ)
  | block (b : Block ε K) (p : TaskProgram ε K σ)
  | bound (traceId spanId : Str) (tracestate : Option Str) (p : TaskProgram ε K σ)
  /-- `asyncio.create_task`, with a copy of the context or with an empty one. -/
  | createTask (copies : Bool) (p : TaskProgram ε K σ)
  /-- A message with these headers, to which `inject_traceparent` adds what is current. -/
  | send (headers : σ → Headers)
  /-- The handler of a message, in what `extract_traceparent` finds in its headers. -/
  | receive (p : TaskProgram ε K σ)

/-- A program that makes no tasks. -/
def Program.toTask : Program ε K σ → TaskProgram ε K σ
  | .action f => .action fun host ↦ some (f host)
  | .seq p q => .seq p.toTask q.toTask
  | .branch cond p q => .branch cond p.toTask q.toTask
  | .tryExcept p catches q => .tryExcept p.toTask catches q.toTask
  | .tryFinally p q => .tryFinally p.toTask q.toTask
  | .block b p => .block b p.toTask
  | .bound traceId spanId tracestate p => .bound traceId spanId tracestate p.toTask

/-- What a task does when it is done with what it is doing. -/
inductive Frame (ε K σ : Type) where
  | next (q : TaskProgram ε K σ)
  | handler (catches : ε → Bool) (q : TaskProgram ε K σ)
  | finalizer (q : TaskProgram ε K σ)
  /-- After a finalizer: the outcome of what was before it. -/
  | ending (r : Except (Raised ε) Unit)
  | block (e : Entered ε K) (scope : Scope TraceVar (Option Str))
  | bound (scope : Scope TraceVar (Option Str))

/-- What a task is doing. -/
inductive Control (ε K σ : Type) where
  | exec (p : TaskProgram ε K σ)
  | ret (r : Except (Raised ε) Unit)

/-- One task. -/
inductive TaskState (ε K σ : Type) where
  | idle
  /-- It runs in the context with this number. -/
  | running (n : ℕ) (x : Control ε K σ) (k : List (Frame ε K σ))
  | done (r : Except (Raised ε) Unit)

/-- What all tasks share. -/
structure Loop (ε K σ : Type) where
  /-- What belongs to the host. -/
  host : σ
  /-- All contexts. -/
  vars : Vars TraceVar (Option Str)
  /-- Everything the SDK writes. -/
  telemetry : Telemetry K
  /-- The tasks that have yet to start, with their contexts. -/
  ready : List (ℕ × TaskProgram ε K σ)
  /-- The headers of all messages that were sent. -/
  messages : List Headers
  /-- The blocks that were entered and left, and in which context; the code does not keep this. -/
  events : List (ℕ × Bracket (Entered ε K))

/-- What is current in a context. -/
def Loop.context (l : Loop ε K σ) (n : ℕ) : TraceContext := TraceValues.read (l.vars.value n)

/-- What a task does without looking at its context. -/
def advance (host : σ) :
    Control ε K σ → List (Frame ε K σ) → Option (σ × Control ε K σ × List (Frame ε K σ))
  | .exec (.action f), k => (f host).map fun (r, host') ↦ (host', .ret (r.mapError .host), k)
  | .exec (.seq p q), k => some (host, .exec p, .next q :: k)
  | .exec (.branch cond p q), k => some (host, .exec (if cond host then p else q), k)
  | .exec (.tryExcept p catches q), k => some (host, .exec p, .handler catches q :: k)
  | .exec (.tryFinally p q), k => some (host, .exec p, .finalizer q :: k)
  | .exec (.block b _), k => b.constructError.map fun exc ↦ (host, .ret (.error (.sdk exc)), k)
  | .exec (.bound _ _ _ _), _ => none
  | .exec (.createTask _ _), _ => none
  | .exec (.send _), _ => none
  | .exec (.receive _), _ => none
  | .ret (.ok ()), .next q :: k => some (host, .exec q, k)
  | .ret (.error raised), .next _ :: k => some (host, .ret (.error raised), k)
  | .ret (.ok ()), .handler _ _ :: k => some (host, .ret (.ok ()), k)
  | .ret (.error raised), .handler catches q :: k =>
    some (host, if catches raised.exc then .exec q else .ret (.error raised), k)
  | .ret r, .finalizer q :: k => some (host, .exec q, .ending r :: k)
  | .ret (.ok ()), .ending r :: k => some (host, .ret r, k)
  | .ret (.error raised), .ending _ :: k => some (host, .ret (.error raised), k)
  | .ret _, .block _ _ :: _ => none
  | .ret _, .bound _ :: _ => none
  | .ret _, [] => none

/-- Entering a block: the frame that leaves it, and the loop. -/
def Loop.enter (l : Loop ε K σ) (n : ℕ) (b : Block ε K) : Frame ε K σ × Loop ε K σ :=
  let e : Entered ε K := ⟨b, l.context n⟩
  let (scope, vars) := l.vars.setAll n e.bindings
  (.block e scope, { l with vars := vars, events := l.events ++ [(n, .opened e)] })

/-- Entering `bound_trace_context`. -/
def Loop.bind (l : Loop ε K σ) (n : ℕ) (traceId spanId : Str) (tracestate : Option Str) :
    Frame ε K σ × Loop ε K σ :=
  let (scope, vars) := l.vars.setAll n (boundValues traceId spanId tracestate)
  (.bound scope, { l with vars := vars })

/-- Leaving `bound_trace_context`: an exception of `reset` takes the place of the outcome. -/
def Loop.unbind (resetError : ResetError → ε) (l : Loop ε K σ) (n : ℕ)
    (scope : Scope TraceVar (Option Str)) (r : Except (Raised ε) Unit) :
    Except (Raised ε) Unit × Loop ε K σ :=
  match l.vars.resetAll n scope with
  | (.ok (), vars) => (r, { l with vars := vars })
  | (.error e, vars) => (.error (.sdk (resetError e)), { l with vars := vars })

/-- Leaving a block: the span is emitted before the variables are reset. -/
def Loop.leave (resetError : ResetError → ε) (l : Loop ε K σ) (n : ℕ) (e : Entered ε K)
    (scope : Scope TraceVar (Option Str)) (r : Except (Raised ε) Unit) :
    Except (Raised ε) Unit × Loop ε K σ :=
  let (r', telemetry) := e.block.leave e.context r l.telemetry
  ({ l with telemetry := telemetry, events := l.events ++ [(n, .closed e)] } : Loop ε K σ).unbind
    resetError n scope r'

/-- Making a task. -/
def Loop.createTask (l : Loop ε K σ) (n : ℕ) (copies : Bool) (p : TaskProgram ε K σ) :
    Loop ε K σ :=
  let (m, vars) := l.vars.newContext (if copies then l.vars.value n else fun _ ↦ none)
  { l with vars := vars, ready := l.ready ++ [(m, p)] }

/-- Sending a message. -/
def Loop.send (l : Loop ε K σ) (n : ℕ) (headers : σ → Headers) : Loop ε K σ :=
  { l with messages := l.messages ++ [injectTraceparent (headers l.host) (l.context n)] }

/-- One step of one task. -/
inductive TaskStep (resetError : ResetError → ε) :
    Loop ε K σ → TaskState ε K σ → Loop ε K σ → TaskState ε K σ → Prop
  | start {l : Loop ε K σ} {n : ℕ} {p : TaskProgram ε K σ}
      {before after : List (ℕ × TaskProgram ε K σ)} (h : l.ready = before ++ (n, p) :: after) :
      TaskStep resetError l .idle { l with ready := before ++ after } (.running n (.exec p) [])
  | advance {l : Loop ε K σ} {n : ℕ} {x x' : Control ε K σ} {k k' : List (Frame ε K σ)} {host : σ}
      (h : advance l.host x k = some (host, x', k')) :
      TaskStep resetError l (.running n x k) { l with host := host } (.running n x' k')
  | enter {l : Loop ε K σ} {n : ℕ} {b : Block ε K} {p : TaskProgram ε K σ}
      {k : List (Frame ε K σ)} (h : b.constructError = none) :
      TaskStep resetError l (.running n (.exec (.block b p)) k) (l.enter n b).2
        (.running n (.exec p) ((l.enter n b).1 :: k))
  | leave {l : Loop ε K σ} {n : ℕ} {r : Except (Raised ε) Unit} {e : Entered ε K}
      {scope : Scope TraceVar (Option Str)} {k : List (Frame ε K σ)} :
      TaskStep resetError l (.running n (.ret r) (.block e scope :: k))
        (l.leave resetError n e scope r).2 (.running n (.ret (l.leave resetError n e scope r).1) k)
  | bind {l : Loop ε K σ} {n : ℕ} {traceId spanId : Str} {tracestate : Option Str}
      {p : TaskProgram ε K σ} {k : List (Frame ε K σ)} :
      TaskStep resetError l (.running n (.exec (.bound traceId spanId tracestate p)) k)
        (l.bind n traceId spanId tracestate).2
        (.running n (.exec p) ((l.bind n traceId spanId tracestate).1 :: k))
  | unbind {l : Loop ε K σ} {n : ℕ} {r : Except (Raised ε) Unit}
      {scope : Scope TraceVar (Option Str)} {k : List (Frame ε K σ)} :
      TaskStep resetError l (.running n (.ret r) (.bound scope :: k))
        (l.unbind resetError n scope r).2 (.running n (.ret (l.unbind resetError n scope r).1) k)
  | createTask {l : Loop ε K σ} {n : ℕ} {copies : Bool} {p : TaskProgram ε K σ}
      {k : List (Frame ε K σ)} :
      TaskStep resetError l (.running n (.exec (.createTask copies p)) k)
        (l.createTask n copies p) (.running n (.ret (.ok ())) k)
  | send {l : Loop ε K σ} {n : ℕ} {headers : σ → Headers} {k : List (Frame ε K σ)} :
      TaskStep resetError l (.running n (.exec (.send headers)) k) (l.send n headers)
        (.running n (.ret (.ok ())) k)
  /-- A message without a trace context is handled in what is current. -/
  | receive {l : Loop ε K σ} {n : ℕ} {h : Headers} {p : TaskProgram ε K σ}
      {k : List (Frame ε K σ)} (hsent : h ∈ l.messages) (hnone : extractTraceparent h = none) :
      TaskStep resetError l (.running n (.exec (.receive p)) k) l (.running n (.exec p) k)
  /-- The trace context of a message is bound around its handler. -/
  | resume {l : Loop ε K σ} {n : ℕ} {h : Headers} {traceId spanId : Str} {sampled : Bool}
      {p : TaskProgram ε K σ} {k : List (Frame ε K σ)} (hsent : h ∈ l.messages)
      (hsome : extractTraceparent h = some (traceId, spanId, sampled)) :
      TaskStep resetError l (.running n (.exec (.receive p)) k) (l.bind n traceId spanId none).2
        (.running n (.exec p) ((l.bind n traceId spanId none).1 :: k))
  | finish {l : Loop ε K σ} {n : ℕ} {r : Except (Raised ε) Unit} :
      TaskStep resetError l (.running n (.ret r) []) l (.done r)

/-- The loop and all tasks. -/
abbrev Tasks (ι ε K σ : Type) := Config ι (Loop ε K σ) (TaskState ε K σ)

/-- A loop with one context. -/
def Loop.init (host : σ) (values : TraceValues) (t : Telemetry K) : Loop ε K σ where
  host := host
  vars := ⟨fun _ ↦ values, 1, fun _ _ ↦ false, 0⟩
  telemetry := t
  ready := []
  messages := []
  events := []

/-- One task runs the program. -/
def Tasks.init [DecidableEq ι] (main : ι) (p : TaskProgram ε K σ) (host : σ) (values : TraceValues)
    (t : Telemetry K) : Tasks ι ε K σ :=
  ⟨.init host values t, Function.update (fun _ ↦ .idle) main (.running 0 (.exec p) [])⟩

variable {g : ResetError → ε}

/-! ## A task on its own -/

/-- A task gets from a program to its outcome while nobody interferes. -/
def RunsTo (g : ResetError → ε) (p : TaskProgram ε K σ) (n : ℕ) (l : Loop ε K σ)
    (r : Except (Raised ε) Unit) (l' : Loop ε K σ) : Prop :=
  ∀ k, Solo (TaskStep g) (l, .running n (.exec p) k) (l', .running n (.ret r) k)

/-- The world that a task sees. -/
def Loop.world (l : Loop ε K σ) (n : ℕ) : World K σ := ⟨l.host, l.context n, l.telemetry⟩

/-- From `l` on, `l'` is reached when a program has run through these blocks and has left this world
behind. -/
structure Loop.Ends (l : Loop ε K σ) (n : ℕ) (w : World K σ) (trace : List (Bracket (Entered ε K)))
    (l' : Loop ε K σ) : Prop where
  host : l'.host = w.host
  telemetry : l'.telemetry = w.telemetry
  vars : l.vars.Same n l'.vars
  ready : l'.ready = l.ready
  messages : l'.messages = l.messages
  events : l'.events = l.events ++ trace.map (Prod.mk n)

variable {l l' l₁ l₂ : Loop ε K σ} {n : ℕ} {w w' : World K σ}
  {trace trace' : List (Bracket (Entered ε K))}

theorem Loop.Ends.world (h : l.Ends n w trace l') (hw : w.context = l.context n) :
    l'.world n = w := by
  obtain ⟨host, context, telemetry⟩ := w
  rw [Loop.world, Loop.context, h.vars.value, h.host, h.telemetry]
  exact congrArg (World.mk host · telemetry) hw.symm

theorem Loop.Ends.trans (h : l.Ends n w trace l₁) (h' : l₁.Ends n w' trace' l') :
    l.Ends n w' (trace ++ trace') l' where
  host := h'.host
  telemetry := h'.telemetry
  vars := h.vars.trans h'.vars
  ready := h'.ready.trans h.ready
  messages := h'.messages.trans h.messages
  events := by rw [h'.events, h.events, List.map_append, List.append_assoc]

theorem Loop.enter_world (l : Loop ε K σ) (n : ℕ) (b : Block ε K) :
    (l.enter n b).2.world n =
      { l.world n with context := Entered.inner ⟨b, (l.world n).context⟩ } := by
  let e : Entered ε K := ⟨b, l.context n⟩
  have hvalue : (l.enter n b).2.vars.value n = assign e.bindings (l.vars.value n) :=
    (l.vars.setAll_opens n (boundValues_nodup _ _ _)).value
  rw [Loop.world, Loop.context, hvalue, e.read_bindings]
  rfl

theorem Loop.bind_world (l : Loop ε K σ) (n : ℕ) (traceId spanId : Str)
    (tracestate : Option Str) : (l.bind n traceId spanId tracestate).2.world n =
      { l.world n with context := ⟨some traceId, some spanId, tracestate⟩ } := by
  have hvalue : (l.bind (ε := ε) n traceId spanId tracestate).2.vars.value n =
      assign (boundValues traceId spanId tracestate) (l.vars.value n) :=
    (l.vars.setAll_opens n (boundValues_nodup _ _ _)).value
  rw [Loop.world, Loop.context, hvalue, read_assign]
  rfl

/-- A scope is closed after a body that has put everything back. -/
theorem Loop.unbind_ends {opened : Loop ε K σ} {traceId spanId : Str} {tracestate : Option Str}
    {scope : Scope TraceVar (Option Str)} {r : Except (Raised ε) Unit}
    (hopens : l.vars.Opens n (boundValues traceId spanId tracestate) scope opened.vars)
    (hsame : opened.vars.Same n l'.vars) :
    (l'.unbind g n scope r).1 = r ∧
      ∃ vars, (l'.unbind g n scope r).2 = { l' with vars := vars } ∧
        l.vars.Same n vars := by
  obtain ⟨hok, hclosed⟩ := hopens.resetAll (boundValues_nodup traceId spanId tracestate) hsame
  rw [Loop.unbind]
  generalize l'.vars.resetAll n scope = x at hok hclosed
  obtain ⟨r', vars⟩ := x
  obtain rfl : r' = .ok () := hok
  exact ⟨rfl, vars, rfl, hclosed⟩

theorem Loop.Ends.refl (l : Loop ε K σ) (n : ℕ) : l.Ends n (l.world n) [] l :=
  ⟨rfl, rfl, .refl _ n, rfl, rfl, (List.append_nil _).symm⟩

/-- A step that nobody sees. -/
theorem solo_advance {x x' : Control ε K σ} {k k' : List (Frame ε K σ)}
    (h : advance l.host x k = some (l.host, x', k')) :
    Solo (TaskStep g) (l, .running n x k) (l, .running n x' k') := .single (.advance h)

/-- A block around what a task does on its own. -/
theorem RunsTo.block {b : Block ε K} (hb : b.constructError = none) {p : TaskProgram ε K σ}
    {r : Except (Raised ε) Unit} (h : RunsTo g p n (l.enter n b).2 r l₂)
    (hends : (l.enter n b).2.Ends n w trace l₂) :
    ∃ l', RunsTo g (.block b p) n l (b.leave (l.context n) r w.telemetry).1 l' ∧
      l.Ends n ⟨w.host, l.context n, (b.leave (l.context n) r w.telemetry).2⟩
        (bracket ⟨b, l.context n⟩ trace) l' := by
  let e : Entered ε K := ⟨b, l.context n⟩
  let scope := (l.vars.setAll n e.bindings).1
  let left := b.leave (l.context n) r l₂.telemetry
  let l₃ : Loop ε K σ :=
    { l₂ with telemetry := left.2, events := l₂.events ++ [(n, .closed e)] }
  have hopens := l.vars.setAll_opens n (l := e.bindings) (boundValues_nodup _ _ _)
  have hbody : (l.enter n b).2.vars.Same n l₃.vars := hends.vars
  obtain ⟨hr, vars, hunbind, hsame⟩ := Loop.unbind_ends (g := g) (r := left.1) hopens hbody
  have hlast (k : List (Frame ε K σ)) : TaskStep g l₂
      (.running n (.ret r) (.block e scope :: k)) { l₃ with vars := vars }
      (.running n (.ret left.1) k) := by
    have hleave : l₂.leave g n e scope r = (left.1, { l₃ with vars := vars }) :=
      Prod.ext hr hunbind
    have hstep : TaskStep g l₂ (.running n (.ret r) (.block e scope :: k)) _ _ := .leave
    rwa [hleave] at hstep
  rw [← hends.telemetry]
  refine ⟨{ l₃ with vars := vars }, fun k ↦ .head (.enter hb) ((h _).tail (hlast k)), ?_⟩
  refine ⟨hends.host, rfl, hsame, hends.ready, hends.messages, ?_⟩
  show l₂.events ++ [(n, .closed e)] = _
  have hevents : (l.enter n b).2.events = l.events ++ [(n, .opened e)] := rfl
  rw [hends.events, hevents, bracket, List.map_append, List.map_cons, List.append_assoc,
    List.append_assoc]
  rfl

/-- `bound_trace_context` around what a task does on its own. -/
theorem RunsTo.bound {traceId spanId : Str} {tracestate : Option Str} {p : TaskProgram ε K σ}
    {r : Except (Raised ε) Unit}
    (h : RunsTo g p n (l.bind (ε := ε) n traceId spanId tracestate).2 r l₂)
    (hends : (l.bind (ε := ε) n traceId spanId tracestate).2.Ends n w trace l₂) :
    ∃ l', RunsTo g (.bound traceId spanId tracestate p) n l r l' ∧
      l.Ends n { w with context := l.context n } trace l' := by
  let scope := (l.vars.setAll n (boundValues traceId spanId tracestate)).1
  have hopens := l.vars.setAll_opens n (boundValues_nodup traceId spanId tracestate)
  obtain ⟨hr, vars, hunbind, hsame⟩ :=
    Loop.unbind_ends (g := g) (r := r) hopens hends.vars
  have hlast (k : List (Frame ε K σ)) : TaskStep g l₂
      (.running n (.ret r) (.bound scope :: k)) { l₂ with vars := vars }
      (.running n (.ret r) k) := by
    have heq : l₂.unbind g n scope r = (r, { l₂ with vars := vars }) := Prod.ext hr hunbind
    have hstep : TaskStep g l₂ (.running n (.ret r) (.bound scope :: k)) _ _ := .unbind
    rwa [heq] at hstep
  refine ⟨{ l₂ with vars := vars }, fun k ↦ .head .bind ((h _).tail (hlast k)), ?_⟩
  exact ⟨hends.host, hends.telemetry, hsame, hends.ready, hends.messages, hends.events⟩

theorem advance_finalizer (host : σ) (r : Except (Raised ε) Unit) (q : TaskProgram ε K σ)
    (k : List (Frame ε K σ)) :
    advance host (.ret r) (.finalizer q :: k) = some (host, .exec q, .ending r :: k) := by
  rcases r with _ | _ <;> rfl

/-- A task gets through a program, by induction on the program. -/
theorem exists_runsTo (p : Program ε K σ) (l : Loop ε K σ) (n : ℕ) :
    ∃ l', RunsTo g p.toTask n l (p.run (l.world n)).1 l' ∧
      l.Ends n (p.run (l.world n)).2 (p.trace (l.world n)) l' := by
  induction p generalizing l with
  | action f =>
    refine ⟨{ l with host := (f l.host).2 }, fun k ↦ .single (.advance rfl), ?_⟩
    exact ⟨rfl, rfl, .refl _ n, rfl, rfl, (List.append_nil _).symm⟩
  | seq p q hp hq =>
    obtain ⟨l₁, hrun, hends⟩ := hp l
    have hworld := hends.world (p.exec _).context
    simp only [Program.run, Program.trace]
    rcases hr : p.run (l.world n) with ⟨raised | _, w'⟩ <;> rw [hr] at hrun hends hworld
    · refine ⟨l₁, fun k ↦ ?_, by simpa using hends⟩
      exact (solo_advance rfl).trans ((hrun _).trans (solo_advance rfl))
    · obtain ⟨l₂, hrun', hends'⟩ := hq l₁
      rw [hworld] at hrun' hends'
      refine ⟨l₂, fun k ↦ ?_, hends.trans hends'⟩
      exact (solo_advance rfl).trans ((hrun _).trans ((solo_advance rfl).trans (hrun' k)))
  | branch cond p q hp hq =>
    simp only [Program.run, Program.trace]
    cases hcond : cond (l.world n).host with
    | true =>
      obtain ⟨l₁, hrun, hends⟩ := hp l
      refine ⟨l₁, fun k ↦ .trans (solo_advance ?_) (hrun k), hends⟩
      exact congrArg some (Prod.ext rfl (Prod.ext (congrArg Control.exec (if_pos hcond)) rfl))
    | false =>
      obtain ⟨l₁, hrun, hends⟩ := hq l
      refine ⟨l₁, fun k ↦ .trans (solo_advance ?_) (hrun k), hends⟩
      have hfalse : ¬cond l.host = true := fun htrue ↦ Bool.false_ne_true (hcond.symm.trans htrue)
      exact congrArg some (Prod.ext rfl (Prod.ext (congrArg Control.exec (if_neg hfalse)) rfl))
  | tryExcept p catches q hp hq =>
    obtain ⟨l₁, hrun, hends⟩ := hp l
    have hworld := hends.world (p.exec _).context
    rcases hr : p.run (l.world n) with ⟨raised | _, w'⟩ <;> rw [hr] at hrun hends hworld
    · cases hcatches : catches raised.exc with
      | true =>
        obtain ⟨l₂, hrun', hends'⟩ := hq l₁
        rw [hworld] at hrun' hends'
        simp only [Program.run, Program.trace, hr, hcatches, if_true]
        refine ⟨l₂, fun k ↦ ?_, hends.trans hends'⟩
        refine (solo_advance rfl).trans ((hrun _).trans (.trans (solo_advance ?_) (hrun' k)))
        simp only [advance, hcatches, if_true]
      | false =>
        simp only [Program.run, Program.trace, hr, hcatches, Bool.false_eq_true, if_false,
          List.append_nil]
        refine ⟨l₁, fun k ↦ ?_, hends⟩
        refine (solo_advance rfl).trans ((hrun _).trans (solo_advance ?_))
        simp only [advance, hcatches, Bool.false_eq_true, if_false]
    · simp only [Program.run, Program.trace, hr, List.append_nil]
      refine ⟨l₁, fun k ↦ ?_, hends⟩
      exact (solo_advance rfl).trans ((hrun _).trans (solo_advance rfl))
  | tryFinally p q hp hq =>
    obtain ⟨l₁, hrun, hends⟩ := hp l
    have hworld := hends.world (p.exec _).context
    obtain ⟨l₂, hrun', hends'⟩ := hq l₁
    rw [hworld] at hrun' hends'
    have hrun₂ (k : List (Frame ε K σ)) : Solo (TaskStep g)
        (l, .running n (.exec (Program.tryFinally p q).toTask) k)
        (l₂, .running n (.ret (q.run (p.run (l.world n)).2).1)
          (.ending (p.run (l.world n)).1 :: k)) :=
      (solo_advance rfl).trans ((hrun _).trans
        ((solo_advance (advance_finalizer _ _ _ k)).trans (hrun' _)))
    simp only [Program.run, Program.trace]
    rcases hr : q.run (p.run (l.world n)).2 with ⟨raised | _, w'⟩ <;> rw [hr] at hrun₂ hends'
    · exact ⟨l₂, fun k ↦ (hrun₂ k).trans (solo_advance rfl), hends.trans hends'⟩
    · exact ⟨l₂, fun k ↦ (hrun₂ k).trans (solo_advance rfl), hends.trans hends'⟩
  | block b p hp =>
    simp only [Program.run, Program.trace]
    cases hb : b.constructError with
    | some exc =>
      rw [Block.run_error hb]
      exact ⟨l, fun k ↦ solo_advance (by simp [advance, Program.toTask, hb]), .refl l n⟩
    | none =>
      obtain ⟨l₂, hrun, hends⟩ := hp (l.enter n b).2
      rw [Loop.enter_world] at hrun hends
      rw [Block.run_leave hb]
      exact hrun.block hb hends
  | bound traceId spanId tracestate p hp =>
    obtain ⟨l₂, hrun, hends⟩ := hp (l.bind (ε := ε) n traceId spanId tracestate).2
    rw [Loop.bind_world] at hrun hends
    exact hrun.bound hends

/-- A program in which no message is waited for. -/
def TaskProgram.Quiet : TaskProgram ε K σ → Prop
  | .action _ => True
  | .seq p q => p.Quiet ∧ q.Quiet
  | .branch _ p q => p.Quiet ∧ q.Quiet
  | .tryExcept p _ q => p.Quiet ∧ q.Quiet
  | .tryFinally p q => p.Quiet ∧ q.Quiet
  | .block _ p => p.Quiet
  | .bound _ _ _ p => p.Quiet
  | .createTask _ _ => True
  | .send _ => True
  | .receive _ => False

theorem Program.toTask_quiet (p : Program ε K σ) : p.toTask.Quiet := by
  induction p with
  | action => trivial
  | seq _ _ hp hq | branch _ _ _ hp hq | tryExcept _ _ _ hp hq | tryFinally _ _ hp hq =>
    exact ⟨hp, hq⟩
  | block _ _ hp | bound _ _ _ _ hp => exact hp

/-- Nor in what comes after that. -/
def Frame.Quiet : Frame ε K σ → Prop
  | .next q => q.Quiet
  | .handler _ q => q.Quiet
  | .finalizer q => q.Quiet
  | _ => True

/-- A task that is running and will not wait for a message. -/
def TaskState.Quiet : TaskState ε K σ → Prop
  | .idle => False
  | .running _ (.exec p) k => p.Quiet ∧ ∀ f ∈ k, f.Quiet
  | .running _ (.ret _) k => ∀ f ∈ k, f.Quiet
  | .done _ => True

/-- A task that waits for nothing does not have a choice. -/
theorem TaskStep.unique {t t₁ t₂ : TaskState ε K σ} (h : TaskStep g l t l₁ t₁)
    (h' : TaskStep g l t l₂ t₂) (ht : t.Quiet) : l₁ = l₂ ∧ t₁ = t₂ := by
  cases h with
  | start => exact ht.elim
  | receive | resume => exact ht.1.elim
  | advance h =>
    cases h' with
    | advance h' =>
      obtain ⟨rfl, rfl, rfl⟩ := by simpa using h.symm.trans h'
      exact ⟨rfl, rfl⟩
    | enter hb => simp [WiseTraceLoom.advance, hb] at h
    | _ => simp [WiseTraceLoom.advance] at h
  | enter hb =>
    cases h' with
    | advance h' => simp [WiseTraceLoom.advance, hb] at h'
    | enter => exact ⟨rfl, rfl⟩
  | _ =>
    cases h' with
    | advance h' => simp [WiseTraceLoom.advance] at h'
    | _ => exact ⟨rfl, rfl⟩

/-- What a task does without looking at its context, it does quietly. -/
theorem advance_quiet {host host' : σ} {n : ℕ} {x x' : Control ε K σ} {k k' : List (Frame ε K σ)}
    (h : advance host x k = some (host', x', k')) (hq : (TaskState.running n x k).Quiet) :
    (TaskState.running n x' k').Quiet := by
  cases x with
  | exec p =>
    cases p with
    | action f =>
      obtain ⟨a, -, ha⟩ := Option.map_eq_some_iff.mp h
      obtain ⟨-, rfl, rfl⟩ := by simpa using ha
      exact hq.2
    | seq p q | tryExcept p _ q | tryFinally p q =>
      obtain ⟨-, rfl, rfl⟩ := by simpa [advance] using h
      exact ⟨hq.1.1, List.forall_mem_cons.mpr ⟨hq.1.2, hq.2⟩⟩
    | branch cond p q =>
      obtain ⟨-, rfl, rfl⟩ := by simpa [advance] using h
      split
      · exact ⟨hq.1.1, hq.2⟩
      · exact ⟨hq.1.2, hq.2⟩
    | block b p =>
      obtain ⟨exc, -, ha⟩ := Option.map_eq_some_iff.mp h
      obtain ⟨-, rfl, rfl⟩ := by simpa using ha
      exact hq.2
    | bound | createTask | send | receive => simp [advance] at h
  | ret r =>
    cases k with
    | nil => cases r <;> simp [advance] at h
    | cons f k =>
      obtain ⟨hf, hk⟩ := List.forall_mem_cons.mp hq
      cases f with
      | next q =>
        rcases r with raised | _ <;> obtain ⟨-, rfl, rfl⟩ := by simpa [advance] using h
        · exact hk
        · exact ⟨hf, hk⟩
      | handler catches q =>
        rcases r with raised | _ <;> obtain ⟨-, rfl, rfl⟩ := by simpa [advance] using h
        · split
          · exact ⟨hf, hk⟩
          · exact hk
        · exact hk
      | finalizer q =>
        rw [advance_finalizer] at h
        obtain ⟨-, rfl, rfl⟩ := by simpa using h
        exact ⟨hf, List.forall_mem_cons.mpr ⟨trivial, hk⟩⟩
      | ending r' =>
        rcases r with raised | _ <;> obtain ⟨-, rfl, rfl⟩ := by simpa [advance] using h
        · exact hk
        · exact hk
      | block | bound => cases r <;> simp [advance] at h

theorem TaskStep.quiet {t t' : TaskState ε K σ} (h : TaskStep g l t l' t') (hq : t.Quiet) :
    t'.Quiet := by
  cases h with
  | start => exact hq.elim
  | advance h => exact advance_quiet h hq
  | enter | bind => exact ⟨hq.1, List.forall_mem_cons.mpr ⟨trivial, hq.2⟩⟩
  | leave | unbind => exact (List.forall_mem_cons.mp hq).2
  | createTask | send => exact hq.2
  | receive | resume => exact hq.1.elim
  | finish => trivial

/-- **The three variables do what the one variable of `Program` does.**  A task that runs a program
without tasks, while nobody interferes, gets to the outcome that `Program.run` says and to no other,
and leaves the same state of the host and the same telemetry behind; the variables of all contexts
are what they were, and no old token is used up. -/
theorem run_alone (p : Program ε K σ) (l : Loop ε K σ) (n : ℕ) :
    ∃ l', l.Ends n (p.run (l.world n)).2 (p.trace (l.world n)) l' ∧
      ∀ y, Solo (TaskStep g) (l, .running n (.exec p.toTask) []) y →
        Solo (TaskStep g) y (l', .done (p.run (l.world n)).1) := by
  obtain ⟨l', hrun, hends⟩ := exists_runsTo (g := g) p l n
  refine ⟨l', hends, fun y hy ↦ ?_⟩
  suffices h : y.2.Quiet ∧ Solo (TaskStep g) y (l', .done (p.run (l.world n)).1) from h.2
  induction hy with
  | refl => exact ⟨⟨p.toTask_quiet, List.forall_mem_nil _⟩, (hrun []).tail .finish⟩
  | @tail y z _ hyz ih =>
    refine ⟨hyz.quiet ih.1, ?_⟩
    rcases ReflTransGen.cases_head ih.2 with rfl | ⟨y', hyy', hrest⟩
    · cases hyz
    · obtain ⟨hl, ht⟩ := hyz.unique hyy' ih.1
      rwa [show z = y' from Prod.ext hl ht]

end WiseTraceLoom
