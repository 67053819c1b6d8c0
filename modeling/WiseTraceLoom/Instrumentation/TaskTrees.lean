import WiseTraceLoom.Instrumentation.Tasks
import WiseTraceLoom.Instrumentation.Traceparent

/-!
# The trace trees of concurrent tasks and processes

The tasks of a loop take turns at every `await`, and each of them sets and resets the same three
variables.  `task_trees` says that this does not show: every block finds the trace context that the
text of the program binds around it, where the text around a task is the text around the place that
makes it.  A task can outlive the block that it was made in; its spans are children of that block
all the same.

Around the handler of a message it is the trace context of the message.  Headers carry no more than
two ids, in a text that anybody may write; but what is read is what was bound where the message was
sent (`extractTraceparent_inject_bound`), whatever the ids look like.  So the spans of a handler are
children of a block that its sender had entered, be it in another process, and however often the
message arrives.

The invariant `Sound` of a task is about what it has yet to do.  What its context holds once the
scopes that are open are closed, one after the other, is what the rest of the program must find.
-/

set_option autoImplicit false

namespace WiseTraceLoom

open Brackets ContextVars Interleaving Relation

variable {ε K σ ι : Type} {g : ResetError → ε}

/-! ## What a message carries -/

theorem IsHexId.dash_not_mem {n : ℕ} {s : Str} (h : IsHexId n s) : '-' ∉ s := fun hmem ↦
  absurd (h.2 _ hmem) (by decide)

/-- **What is read is what was bound**, whatever that is. -/
theorem extractTraceparent_inject_bound {traceId spanId t s : Str} {tracestate : Option Str}
    {sampled : Bool} {h : Headers}
    (hsome : extractTraceparent (injectTraceparent h ⟨some traceId, some spanId, tracestate⟩) =
      some (t, s, sampled)) : t = traceId ∧ s = spanId := by
  have hne : traceparentHeader ≠ tracestateHeader := by decide
  have hheader : (injectTraceparent h ⟨some traceId, some spanId, tracestate⟩).get?
      traceparentHeader = some (formatTraceparent traceId spanId true) := by
    rw [injectTraceparent]
    dsimp only
    split
    · rw [Headers.get?_set, if_neg hne, Headers.get?_set, if_pos rfl]
    · rw [Headers.get?_set, if_pos rfl]
  rw [extractTraceparent, hheader] at hsome
  obtain ⟨p, htext, rfl, rfl, -⟩ := parseTraceparent_eq_some_iff.mp hsome
  have hformat : formatTraceparent traceId spanId true =
      "00".toList ++ '-' :: (traceId ++ '-' :: spanId ++ '-' :: "01".toList) := by
    simp [formatTraceparent]
  have hstrip : Text.strip (formatTraceparent traceId spanId true) =
      formatTraceparent traceId spanId true := by
    have hlast : formatTraceparent traceId spanId true =
        ("00-".toList ++ traceId ++ '-' :: spanId ++ "-0".toList) ++ ['1'] := by
      simp [formatTraceparent]
    refine Text.strip_of_ends ?_ ?_
    · rintro c ⟨⟩
      decide
    · rw [hlast, List.getLast?_concat]
      rintro c ⟨⟩
      decide
  rw [hstrip, hformat, TraceparentFields.text] at htext
  obtain ⟨-, hrest⟩ := Text.append_sep_inj (by decide) p.version_hex.dash_not_mem htext
  have hids : traceId ++ '-' :: spanId = p.traceId ++ '-' :: p.spanId :=
    (Text.append_sep_inj_right (by decide) p.flags_hex.dash_not_mem
      (hrest.trans (by simp))).1
  -- there is one dash on the right-hand side, and so the ids have none
  have hspan : '-' ∉ spanId := by
    have hcount := congrArg (List.count '-') hids
    rw [List.count_append, List.count_append, List.count_cons_self, List.count_cons_self,
      List.count_eq_zero.mpr p.traceId_hex.dash_not_mem,
      List.count_eq_zero.mpr p.spanId_hex.dash_not_mem] at hcount
    exact List.count_eq_zero.mp (by omega)
  obtain ⟨htrace, hspan⟩ := Text.append_sep_inj_right hspan p.spanId_hex.dash_not_mem hids
  exact ⟨htrace.symm, hspan.symm⟩
/-! ## The text of a program -/

/-- One level down in the text of a program: a part of it, and the context that is bound around the
part if the other one is bound around the whole. -/
inductive TaskProgram.Child : TaskProgram ε K σ × TraceContext → TaskProgram ε K σ × TraceContext →
    Prop
  | seqLeft {p q : TaskProgram ε K σ} {context : TraceContext} :
      Child (.seq p q, context) (p, context)
  | seqRight {p q : TaskProgram ε K σ} {context : TraceContext} :
      Child (.seq p q, context) (q, context)
  | branchLeft {cond : σ → Bool} {p q : TaskProgram ε K σ} {context : TraceContext} :
      Child (.branch cond p q, context) (p, context)
  | branchRight {cond : σ → Bool} {p q : TaskProgram ε K σ} {context : TraceContext} :
      Child (.branch cond p q, context) (q, context)
  | tryBody {p q : TaskProgram ε K σ} {catches : ε → Bool} {context : TraceContext} :
      Child (.tryExcept p catches q, context) (p, context)
  | handler {p q : TaskProgram ε K σ} {catches : ε → Bool} {context : TraceContext} :
      Child (.tryExcept p catches q, context) (q, context)
  | finallyBody {p q : TaskProgram ε K σ} {context : TraceContext} :
      Child (.tryFinally p q, context) (p, context)
  | finalizer {p q : TaskProgram ε K σ} {context : TraceContext} :
      Child (.tryFinally p q, context) (q, context)
  | block {b : Block ε K} {p : TaskProgram ε K σ} {context : TraceContext} :
      Child (.block b p, context) (p, Entered.inner ⟨b, context⟩)
  | bound {traceId spanId : Str} {tracestate : Option Str} {p : TaskProgram ε K σ}
      {context : TraceContext} : Child (.bound traceId spanId tracestate p, context)
        (p, ⟨some traceId, some spanId, tracestate⟩)
  /-- The task has a copy of the context. -/
  | copied {p : TaskProgram ε K σ} {context : TraceContext} :
      Child (.createTask true p, context) (p, context)
  | empty {p : TaskProgram ε K σ} {context : TraceContext} :
      Child (.createTask false p, context) (p, ⟨none, none, none⟩)
  /-- The message has no trace context. -/
  | received {p : TaskProgram ε K σ} {context : TraceContext} :
      Child (.receive p, context) (p, context)
  | resumed {p : TaskProgram ε K σ} {context : TraceContext} {traceId spanId : Str} :
      Child (.receive p, context) (p, ⟨some traceId, some spanId, none⟩)

/-- `Inside root (p, context)`: `p` is a part of the program `root.1`, and `context` is bound around
it if `root.2` is bound around `root.1`. -/
abbrev Inside (root : TaskProgram ε K σ × TraceContext) :
    TaskProgram ε K σ × TraceContext → Prop := ReflTransGen TaskProgram.Child root

variable {root : TaskProgram ε K σ × TraceContext} {known : List (Entered ε K)}

/-- The host sends headers with these ids of its own, where nothing is bound. -/
def Foreign (root : TaskProgram ε K σ × TraceContext) (traceId spanId : Str) : Prop :=
  ∃ headers context host sampled, Inside root (.send headers, context) ∧
    (context.traceId = none ∨ context.spanId = none) ∧
    extractTraceparent (headers host) = some (traceId, spanId, sampled)

/-- Who has bound a context: nobody, `bound_trace_context`, a block that was entered, or the handler
of a message that was sent in such a context. -/
inductive BoundBy (root : TaskProgram ε K σ × TraceContext) (known : List (Entered ε K)) :
    TraceContext → Prop
  | main : BoundBy root known root.2
  | empty : BoundBy root known ⟨none, none, none⟩
  | bound {traceId spanId : Str} {tracestate : Option Str} {p : TaskProgram ε K σ}
      {context : TraceContext} (h : Inside root (.bound traceId spanId tracestate p, context)) :
      BoundBy root known ⟨some traceId, some spanId, tracestate⟩
  | block {e : Entered ε K} (h : e ∈ known) : BoundBy root known e.inner
  | foreign {traceId spanId : Str} (h : Foreign root traceId spanId) :
      BoundBy root known ⟨some traceId, some spanId, none⟩
  | relayed {traceId spanId : Str} {tracestate : Option Str}
      (h : BoundBy root known ⟨some traceId, some spanId, tracestate⟩) :
      BoundBy root known ⟨some traceId, some spanId, none⟩

theorem BoundBy.mono {known' : List (Entered ε K)} {context : TraceContext}
    (h : BoundBy root known context) (hsub : ∀ e ∈ known, e ∈ known') :
    BoundBy root known' context := by
  induction h with
  | main => exact .main
  | empty => exact .empty
  | bound h => exact .bound h
  | block h => exact .block (hsub _ h)
  | foreign h => exact .foreign h
  | relayed _ ih => exact .relayed ih

/-- Every block was entered in the context that the text of the program shows, which had been bound
before. -/
inductive Recorded (root : TaskProgram ε K σ × TraceContext) :
    List (ℕ × Bracket (Entered ε K)) → Prop
  | nil : Recorded root []
  | opened {events : List (ℕ × Bracket (Entered ε K))} {n : ℕ} {e : Entered ε K}
      {p : TaskProgram ε K σ} (h : Recorded root events)
      (hinside : Inside root (.block e.block p, e.context))
      (hbound : BoundBy root (opensOf (events.map Prod.snd)) e.context) :
      Recorded root (events ++ [(n, .opened e)])
  | closed {events : List (ℕ × Bracket (Entered ε K))} {n : ℕ} {e : Entered ε K}
      (h : Recorded root events) : Recorded root (events ++ [(n, .closed e)])

/-- The scope that a frame closes. -/
def Frame.openScope : Frame ε K σ → Option (Scope TraceVar (Option Str))
  | .block _ scope => some scope
  | .bound scope => some scope
  | _ => none

/-- The block that a frame leaves. -/
def Frame.openBlock : Frame ε K σ → Option (Entered ε K)
  | .block e _ => some e
  | _ => none

/-- What is executed next belongs where the variables have these values. -/
def Control.Stands (root : TaskProgram ε K σ × TraceContext) :
    Control ε K σ → TraceValues → Prop
  | .exec p, values => Inside root (p, values.read)
  | .ret _, _ => True

/-- So does everything after that, where closing a scope puts the values back. -/
def Standing (root : TaskProgram ε K σ × TraceContext) (known : List (Entered ε K)) :
    List (Frame ε K σ) → TraceValues → Prop
  | [], values => BoundBy root known values.read
  | .next q :: k, values => Inside root (q, values.read) ∧ Standing root known k values
  | .handler _ q :: k, values => Inside root (q, values.read) ∧ Standing root known k values
  | .finalizer q :: k, values => Inside root (q, values.read) ∧ Standing root known k values
  | .ending _ :: k, values => Standing root known k values
  | .block e scope :: k, values =>
    (BoundBy root known values.read ∧ e.block.constructError = none ∧
      e.context = TraceValues.read (restore scope values)) ∧
    Standing root known k (restore scope values)
  | .bound scope :: k, values =>
    BoundBy root known values.read ∧ Standing root known k (restore scope values)

theorem Standing.boundBy {k : List (Frame ε K σ)} {values : TraceValues}
    (h : Standing root known k values) : BoundBy root known values.read := by
  induction k with
  | nil => exact h
  | cons f k ih =>
    cases f with
    | next | handler | finalizer => exact ih h.2
    | ending => exact ih h
    | block => exact h.1.1
    | bound => exact h.1

theorem Standing.mono {known' : List (Entered ε K)} {k : List (Frame ε K σ)}
    {values : TraceValues} (h : Standing root known k values)
    (hsub : ∀ e ∈ known, e ∈ known') : Standing root known' k values := by
  induction k generalizing values with
  | nil => exact BoundBy.mono h hsub
  | cons f k ih =>
    cases f with
    | next | handler | finalizer => exact ⟨h.1, ih h.2⟩
    | ending => exact ih h
    | block => exact ⟨⟨h.1.1.mono hsub, h.1.2⟩, ih h.2⟩
    | bound => exact ⟨h.1.mono hsub, ih h.2⟩

/-- **A step that does not look at the context** stays inside the text, and leaves the open scopes
alone. -/
theorem advance_standing {host host' : σ} {x x' : Control ε K σ} {k k' : List (Frame ε K σ)}
    {values : TraceValues} (h : advance host x k = some (host', x', k'))
    (hx : x.Stands root values) (hk : Standing root known k values) :
    (x'.Stands root values ∧ Standing root known k' values) ∧
      k'.filterMap Frame.openScope = k.filterMap Frame.openScope ∧
      k'.filterMap Frame.openBlock = k.filterMap Frame.openBlock := by
  cases x with
  | exec p =>
    cases p with
    | action f =>
      obtain ⟨a, -, ha⟩ := Option.map_eq_some_iff.mp h
      obtain ⟨-, rfl, rfl⟩ := by simpa using ha
      exact ⟨⟨trivial, hk⟩, rfl, rfl⟩
    | seq p q =>
      obtain ⟨-, rfl, rfl⟩ := by simpa [advance] using h
      exact ⟨⟨hx.tail .seqLeft, hx.tail .seqRight, hk⟩, rfl, rfl⟩
    | branch cond p q =>
      obtain ⟨-, rfl, rfl⟩ := by simpa [advance] using h
      refine ⟨⟨?_, hk⟩, rfl, rfl⟩
      split
      · exact hx.tail .branchLeft
      · exact hx.tail .branchRight
    | tryExcept p catches q =>
      obtain ⟨-, rfl, rfl⟩ := by simpa [advance] using h
      exact ⟨⟨hx.tail .tryBody, hx.tail .handler, hk⟩, rfl, rfl⟩
    | tryFinally p q =>
      obtain ⟨-, rfl, rfl⟩ := by simpa [advance] using h
      exact ⟨⟨hx.tail .finallyBody, hx.tail .finalizer, hk⟩, rfl, rfl⟩
    | block b p =>
      obtain ⟨exc, -, ha⟩ := Option.map_eq_some_iff.mp h
      obtain ⟨-, rfl, rfl⟩ := by simpa using ha
      exact ⟨⟨trivial, hk⟩, rfl, rfl⟩
    | bound | createTask | send | receive => simp [advance] at h
  | ret r =>
    cases k with
    | nil => cases r <;> simp [advance] at h
    | cons f k =>
      cases f with
      | next q =>
        rcases r with raised | _ <;> obtain ⟨-, rfl, rfl⟩ := by simpa [advance] using h
        · exact ⟨⟨trivial, hk.2⟩, rfl, rfl⟩
        · exact ⟨⟨hk.1, hk.2⟩, rfl, rfl⟩
      | handler catches q =>
        rcases r with raised | _ <;> obtain ⟨-, rfl, rfl⟩ := by simpa [advance] using h
        · refine ⟨⟨?_, hk.2⟩, rfl, rfl⟩
          split
          · exact hk.1
          · trivial
        · exact ⟨⟨trivial, hk.2⟩, rfl, rfl⟩
      | finalizer q =>
        rw [advance_finalizer] at h
        obtain ⟨-, rfl, rfl⟩ := by simpa using h
        exact ⟨hk, rfl, rfl⟩
      | ending r' =>
        rcases r with raised | _ <;> obtain ⟨-, rfl, rfl⟩ := by simpa [advance] using h
        · exact ⟨⟨trivial, hk⟩, rfl, rfl⟩
        · exact ⟨⟨trivial, hk⟩, rfl, rfl⟩
      | block | bound => cases r <;> simp [advance] at h

/-! ## One task -/

/-- The blocks that were entered. -/
def Loop.entered (l : Loop ε K σ) : List (Entered ε K) := opensOf (l.events.map Prod.snd)

/-- The blocks that were left. -/
def Loop.left (l : Loop ε K σ) : List (Entered ε K) := closesOf (l.events.map Prod.snd)

/-- The blocks that were entered and left in one context. -/
def Loop.eventsOf (l : Loop ε K σ) (n : ℕ) : List (Bracket (Entered ε K)) :=
  (l.events.filter fun e ↦ e.1 = n).map Prod.snd

theorem Loop.eventsOf_append {l l' : Loop ε K σ} {n : ℕ} {x : Bracket (Entered ε K)}
    (h : l'.events = l.events ++ [(n, x)]) (m : ℕ) :
    l'.eventsOf m = l.eventsOf m ++ if n = m then [x] else [] := by
  rw [Loop.eventsOf, h, List.filter_append, List.map_append]
  by_cases hnm : n = m <;> simp [Loop.eventsOf, hnm]

/-- What is known of a task that is running. -/
structure Sound (root : TaskProgram ε K σ × TraceContext) (l : Loop ε K σ) (n : ℕ)
    (x : Control ε K σ) (k : List (Frame ε K σ)) : Prop where
  control : x.Stands root (l.vars.value n)
  frames : Standing root l.entered k (l.vars.value n)
  held : l.vars.Held n (k.filterMap Frame.openScope) (l.vars.value n)
  nested : Nested (k.filterMap Frame.openBlock) (l.eventsOf n)

/-- What is known of a task that has yet to start. -/
structure Waiting (root : TaskProgram ε K σ × TraceContext) (l : Loop ε K σ) (n : ℕ)
    (p : TaskProgram ε K σ) : Prop where
  inside : Inside root (p, l.context n)
  boundBy : BoundBy root l.entered (l.context n)

/-- What belongs to context `m` is left alone. -/
structure Loop.Keeps (l : Loop ε K σ) (m : ℕ) (l' : Loop ε K σ) : Prop where
  value : l'.vars.value m = l.vars.value m
  used : l'.vars.used m = l.vars.used m
  tokens : l.vars.tokens ≤ l'.vars.tokens
  events : l'.eventsOf m = l.eventsOf m
  entered : ∀ e ∈ l.entered, e ∈ l'.entered

theorem Sound.keeps {l l' : Loop ε K σ} {m : ℕ} {x : Control ε K σ} {k : List (Frame ε K σ)}
    (h : Sound root l m x k) (hkeeps : l.Keeps m l') : Sound root l' m x k := by
  obtain ⟨hcontrol, hframes, hheld, hnested⟩ := h
  refine ⟨hkeeps.value ▸ hcontrol, hkeeps.value ▸ hframes.mono hkeeps.entered, ?_,
    hkeeps.events ▸ hnested⟩
  rw [hkeeps.value]
  exact hheld.mono (fun _ _ _ _ ↦ by rw [hkeeps.used]) hkeeps.tokens

theorem Waiting.keeps {l l' : Loop ε K σ} {m : ℕ} {p : TaskProgram ε K σ}
    (h : Waiting root l m p) (hkeeps : l.Keeps m l') : Waiting root l' m p := by
  have hcontext : l'.context m = l.context m := congrArg TraceValues.read hkeeps.value
  exact ⟨hcontext ▸ h.inside, hcontext ▸ h.boundBy.mono hkeeps.entered⟩

/-- Every message that has a trace context carries one that was bound. -/
def Loop.Carried (root : TaskProgram ε K σ × TraceContext) (l : Loop ε K σ) : Prop :=
  ∀ h ∈ l.messages, ∀ traceId spanId sampled,
    extractTraceparent h = some (traceId, spanId, sampled) →
      BoundBy root l.entered ⟨some traceId, some spanId, none⟩

/-- **What a step of the task in context `n` does.** -/
structure Loop.Moves (root : TaskProgram ε K σ × TraceContext) (l : Loop ε K σ) (n : ℕ)
    (l' : Loop ε K σ) : Prop where
  keeps : ∀ m, m ≠ n → m < l.vars.contexts → l.Keeps m l'
  events : ∀ m, m ≠ n → l'.eventsOf m = l.eventsOf m
  /-- At most one task is made, in a new context. -/
  made : l'.ready = l.ready ∧ l'.vars.contexts = l.vars.contexts ∨
    ∃ p, l'.ready = l.ready ++ [(l.vars.contexts, p)] ∧
      l'.vars.contexts = l.vars.contexts + 1 ∧ Waiting root l' l.vars.contexts p
  recorded : Recorded root l.events → Recorded root l'.events
  carried : l.Carried root → l'.Carried root
  emits : ∀ t, EmitsAll l.left t l.telemetry → EmitsAll l'.left t l'.telemetry

/-- A step that is not seen by anybody. -/
theorem Loop.Moves.of_host (l : Loop ε K σ) (n : ℕ) (host : σ) :
    l.Moves root n { l with host := host } :=
  ⟨fun _ _ _ ↦ ⟨rfl, rfl, le_rfl, rfl, fun _ he ↦ he⟩, fun _ _ ↦ rfl, .inl ⟨rfl, rfl⟩, id, id,
    fun _ ↦ id⟩

/-- A step that changes the variables of its own context. -/
theorem Loop.Moves.of_vars {l : Loop ε K σ} {n : ℕ} {vars : Vars TraceVar (Option Str)}
    (h : l.vars.Apart n vars) : l.Moves root n { l with vars := vars } :=
  ⟨fun m hm _ ↦ ⟨h.value m hm, h.used m hm, h.tokens, rfl, fun _ he ↦ he⟩, fun _ _ ↦ rfl,
    .inl ⟨rfl, h.contexts⟩, id, id, fun _ ↦ id⟩

/-- A step that enters a block. -/
theorem Loop.Moves.of_opened {l : Loop ε K σ} {n : ℕ} {vars : Vars TraceVar (Option Str)}
    {e : Entered ε K} {p : TaskProgram ε K σ} (h : l.vars.Apart n vars)
    (hinside : Inside root (.block e.block p, e.context))
    (hbound : BoundBy root l.entered e.context) :
    l.Moves root n { l with vars := vars, events := l.events ++ [(n, .opened e)] } := by
  set l' : Loop ε K σ := { l with vars := vars, events := l.events ++ [(n, .opened e)] }
  have hevents (m : ℕ) (hm : m ≠ n) : l'.eventsOf m = l.eventsOf m := by
    rw [Loop.eventsOf_append (l := l) rfl, if_neg hm.symm, List.append_nil]
  have hentered : l'.entered = l.entered ++ [e] := by
    rw [Loop.entered, List.map_append, opensOf_append]
    rfl
  have hleft : l'.left = l.left := by
    rw [Loop.left, List.map_append, closesOf_append]
    exact List.append_nil _
  have hknown : ∀ x ∈ l.entered, x ∈ l'.entered := fun x hx ↦
    hentered ▸ List.mem_append_left _ hx
  exact ⟨fun m hm _ ↦ ⟨h.value m hm, h.used m hm, h.tokens, hevents m hm, hknown⟩, hevents,
    .inl ⟨rfl, h.contexts⟩, fun hrec ↦ hrec.opened hinside hbound,
    fun hc m hm t s b hsome ↦ (hc m hm t s b hsome).mono hknown, fun t ht ↦ hleft ▸ ht⟩

/-- A step that leaves a block. -/
theorem Loop.Moves.of_closed {l : Loop ε K σ} {n : ℕ} {vars : Vars TraceVar (Option Str)}
    {e : Entered ε K} {t' : Telemetry K} (h : l.vars.Apart n vars)
    (hemits : e.Emits l.telemetry t') :
    l.Moves root n
      { l with vars := vars, telemetry := t', events := l.events ++ [(n, .closed e)] } := by
  set l' : Loop ε K σ :=
    { l with vars := vars, telemetry := t', events := l.events ++ [(n, .closed e)] }
  have hevents (m : ℕ) (hm : m ≠ n) : l'.eventsOf m = l.eventsOf m := by
    rw [Loop.eventsOf_append (l := l) rfl, if_neg hm.symm, List.append_nil]
  have hentered : l'.entered = l.entered := by
    rw [Loop.entered, List.map_append, opensOf_append]
    exact List.append_nil _
  have hleft : l'.left = l.left ++ [e] := by
    rw [Loop.left, List.map_append, closesOf_append]
    rfl
  have hknown : ∀ x ∈ l.entered, x ∈ l'.entered := fun x hx ↦ hentered ▸ hx
  refine ⟨fun m hm _ ↦ ⟨h.value m hm, h.used m hm, h.tokens, hevents m hm, hknown⟩, hevents,
    .inl ⟨rfl, h.contexts⟩, .closed, fun hc m hm t s b hsome ↦ (hc m hm t s b hsome).mono hknown,
    fun t ht ↦ ?_⟩
  rw [hleft]
  exact ht.append (.cons hemits .nil)

theorem Loop.createTask_keeps (l : Loop ε K σ) (n : ℕ) (copies : Bool) (p : TaskProgram ε K σ)
    {m : ℕ} (hm : m < l.vars.contexts) : l.Keeps m (l.createTask n copies p) :=
  ⟨Function.update_of_ne hm.ne _ _, rfl, le_rfl, rfl, fun _ he ↦ he⟩

/-- A step that makes a task. -/
theorem Loop.Moves.of_createTask {l : Loop ε K σ} {n : ℕ} {copies : Bool} {p : TaskProgram ε K σ}
    (hinside : Inside root (.createTask copies p, l.context n))
    (hbound : BoundBy root l.entered (l.context n)) :
    l.Moves root n (l.createTask n copies p) := by
  have hnew : (l.createTask n copies p).vars.value l.vars.contexts =
      if copies then l.vars.value n else fun _ ↦ none := Function.update_self _ _ _
  refine ⟨fun m _ ↦ l.createTask_keeps n copies p, fun _ _ ↦ rfl, .inr ⟨p, rfl, rfl, ?_⟩, id, id,
    fun _ ↦ id⟩
  cases copies with
  | true =>
    have hcontext : (l.createTask n true p).context l.vars.contexts = l.context n :=
      congrArg TraceValues.read hnew
    exact ⟨hcontext ▸ hinside.tail .copied, hcontext ▸ hbound⟩
  | false =>
    have hcontext : (l.createTask n false p).context l.vars.contexts = ⟨none, none, none⟩ :=
      congrArg TraceValues.read hnew
    exact ⟨hcontext ▸ hinside.tail .empty, hcontext ▸ .empty⟩

/-- A step that sends a message. -/
theorem Loop.Moves.of_send {l : Loop ε K σ} {n : ℕ} {headers : σ → Headers}
    (hinside : Inside root (.send headers, l.context n))
    (hbound : BoundBy root l.entered (l.context n)) : l.Moves root n (l.send n headers) := by
  refine ⟨fun _ _ _ ↦ ⟨rfl, rfl, le_rfl, rfl, fun _ he ↦ he⟩, fun _ _ ↦ rfl, .inl ⟨rfl, rfl⟩, id,
    fun hcarried ↦ ?_, fun _ ↦ id⟩
  refine List.forall_mem_append.mpr ⟨hcarried, List.forall_mem_singleton.mpr ?_⟩
  intro traceId spanId sampled hsome
  generalize l.context n = context at hinside hbound hsome
  rcases context with ⟨_ | t, _ | s, tracestate⟩
  · exact .foreign ⟨headers, _, l.host, sampled, hinside, .inl rfl, hsome⟩
  · exact .foreign ⟨headers, _, l.host, sampled, hinside, .inl rfl, hsome⟩
  · exact .foreign ⟨headers, _, l.host, sampled, hinside, .inr rfl, hsome⟩
  · obtain ⟨rfl, rfl⟩ := extractTraceparent_inject_bound hsome
    exact .relayed hbound

/-- Closing the innermost scope that is open. -/
theorem Loop.unbind_held {l : Loop ε K σ} {n : ℕ} {scope : Scope TraceVar (Option Str)}
    {scopes : List (Scope TraceVar (Option Str))}
    (h : l.vars.Held n (scope :: scopes) (l.vars.value n)) (r : Except (Raised ε) Unit) :
    ∃ vars, l.unbind g n scope r = (r, { l with vars := vars }) ∧
      l.vars.Closes n scope vars ∧ vars.Held n scopes (vars.value n) := by
  obtain ⟨hok, hcloses, hheld⟩ := h.resetAll
  rw [Loop.unbind]
  generalize l.vars.resetAll n scope = x at hok hcloses hheld
  obtain ⟨r', vars⟩ := x
  obtain rfl : r' = .ok () := hok
  exact ⟨vars, rfl, hcloses, hheld⟩

variable {l l' : Loop ε K σ} {n : ℕ} {k : List (Frame ε K σ)} {p : TaskProgram ε K σ}

/-- Entering a block. -/
theorem Sound.enter {b : Block ε K} (h : Sound root l n (.exec (.block b p)) k)
    (hb : b.constructError = none) : l.Moves root n (l.enter n b).2 ∧
      Sound root (l.enter n b).2 n (.exec p) ((l.enter n b).1 :: k) := by
  let e : Entered ε K := ⟨b, l.context n⟩
  obtain ⟨hopens, hheld⟩ := h.held.setAll (l := e.bindings) (boundValues_nodup _ _ _)
  let l₁ : Loop ε K σ :=
    { l with vars := (l.vars.setAll n e.bindings).2, events := l.events ++ [(n, .opened e)] }
  have henter : l.enter n b = (.block e (l.vars.setAll n e.bindings).1, l₁) := rfl
  have hmoves : l.Moves root n l₁ := .of_opened hopens.apart h.control h.frames.boundBy
  have hread : TraceValues.read (l₁.vars.value n) = e.inner := by
    rw [hopens.value, e.read_bindings]
  have hentered : l₁.entered = l.entered ++ [e] := by
    rw [Loop.entered, List.map_append, opensOf_append]
    rfl
  have hknown : ∀ e' ∈ l.entered, e' ∈ l₁.entered := fun e' he' ↦
    hentered ▸ List.mem_append_left _ he'
  rw [henter]
  refine ⟨hmoves, ?_, ⟨⟨?_, hb, ?_⟩, ?_⟩, hheld, ?_⟩
  · rw [Control.Stands, hread]
    exact h.control.tail .block
  · rw [hread]
    exact .block (hentered ▸ List.mem_append_right _ (List.mem_singleton_self e))
  · rw [hopens.restore]
    rfl
  · rw [hopens.restore]
    exact h.frames.mono hknown
  · rw [Loop.eventsOf_append (l := l) rfl, if_pos rfl]
    exact h.nested.opened e

/-- Entering `bound_trace_context`. -/
theorem Sound.bind {q : TaskProgram ε K σ} {traceId spanId : Str} {tracestate : Option Str}
    (h : Sound root l n (.exec q) k)
    (hchild : TaskProgram.Child (q, l.context n) (p, ⟨some traceId, some spanId, tracestate⟩))
    (hbound : BoundBy root l.entered ⟨some traceId, some spanId, tracestate⟩) :
    l.Moves root n (l.bind (ε := ε) n traceId spanId tracestate).2 ∧
      Sound root (l.bind (ε := ε) n traceId spanId tracestate).2 n (.exec p)
        ((l.bind n traceId spanId tracestate).1 :: k) := by
  obtain ⟨hopens, hheld⟩ := h.held.setAll (boundValues_nodup traceId spanId tracestate)
  let scope := (l.vars.setAll n (boundValues traceId spanId tracestate)).1
  let l₁ : Loop ε K σ :=
    { l with vars := (l.vars.setAll n (boundValues traceId spanId tracestate)).2 }
  have hbind : l.bind n traceId spanId tracestate = (.bound scope, l₁) := rfl
  have hread : TraceValues.read (l₁.vars.value n) = ⟨some traceId, some spanId, tracestate⟩ := by
    rw [hopens.value, read_assign]
  rw [hbind]
  refine ⟨.of_vars hopens.apart, ?_, ⟨?_, ?_⟩, hheld, h.nested⟩
  · rw [Control.Stands, hread]
    exact h.control.tail hchild
  · rw [hread]
    exact hbound
  · rw [hopens.restore]
    exact h.frames

/-- Leaving `bound_trace_context`: nothing is raised. -/
theorem Sound.unbind {r : Except (Raised ε) Unit} {scope : Scope TraceVar (Option Str)}
    (h : Sound root l n (.ret r) (.bound scope :: k)) :
    (l.unbind g n scope r).1 = r ∧ l.Moves root n (l.unbind g n scope r).2 ∧
      Sound root (l.unbind g n scope r).2 n (.ret r) k := by
  have hopen : l.vars.Held n (scope :: k.filterMap Frame.openScope) (l.vars.value n) := h.held
  obtain ⟨vars, hunbind, hcloses, hheld⟩ := Loop.unbind_held (g := g) hopen r
  rw [hunbind]
  refine ⟨rfl, .of_vars hcloses.apart, trivial, ?_, hheld, h.nested⟩
  rw [hcloses.value]
  exact h.frames.2

/-- Leaving a block: its span is emitted, and nothing is raised that the body has not raised. -/
theorem Sound.leave {r : Except (Raised ε) Unit} {e : Entered ε K}
    {scope : Scope TraceVar (Option Str)} (h : Sound root l n (.ret r) (.block e scope :: k)) :
    (l.leave g n e scope r).1 = e.block.relay r ∧
      l.Moves root n (l.leave g n e scope r).2 ∧
      Sound root (l.leave g n e scope r).2 n (.ret (e.block.relay r)) k := by
  obtain ⟨hrelay, hemits⟩ := Block.leave_eq h.frames.1.2.1 e.context r l.telemetry
  let l₁ : Loop ε K σ := { l with
    telemetry := (e.block.leave e.context r l.telemetry).2
    events := l.events ++ [(n, .closed e)] }
  have hopen : l₁.vars.Held n (scope :: k.filterMap Frame.openScope) (l₁.vars.value n) := h.held
  obtain ⟨vars, hunbind, hcloses, hheld⟩ :=
    Loop.unbind_held (g := g) hopen (e.block.leave e.context r l.telemetry).1
  have hleave : l.leave g n e scope r = (e.block.relay r, { l₁ with vars := vars }) :=
    hrelay ▸ hunbind
  have hentered : ({ l₁ with vars := vars } : Loop ε K σ).entered = l.entered := by
    rw [Loop.entered, List.map_append, opensOf_append]
    exact List.append_nil _
  rw [hleave]
  refine ⟨rfl, .of_closed hcloses.apart hemits, trivial, ?_, hheld, ?_⟩
  · rw [hentered, hcloses.value]
    exact h.frames.2
  · rw [Loop.eventsOf_append (l := l) rfl, if_pos rfl]
    exact Nested.closed h.nested

/-- The task is still running, or it has come to its end with every block left. -/
def TaskState.Goes (root : TaskProgram ε K σ × TraceContext) (l : Loop ε K σ) (n : ℕ)
    (t : TaskState ε K σ) : Prop :=
  (∃ x k, t = .running n x k ∧ Sound root l n x k) ∨
    (∃ r, t = .done r) ∧ Bracketed (l.eventsOf n)

/-- **A step of a task keeps what is known of it**, and does no harm to the others. -/
theorem TaskStep.sound {x : Control ε K σ} {t' : TaskState ε K σ}
    (h : TaskStep g l (.running n x k) l' t') (hs : Sound root l n x k)
    (hn : n < l.vars.contexts) (hcarried : l.Carried root) :
    l.Moves root n l' ∧ t'.Goes root l' n := by
  cases h with
  | @advance _ _ x' _ k' host h =>
    obtain ⟨⟨hcontrol, hframes⟩, hscopes, hblocks⟩ := advance_standing h hs.control hs.frames
    refine ⟨.of_host l n host, .inl ⟨x', k', rfl, hcontrol, hframes, ?_, ?_⟩⟩
    · rw [hscopes]
      exact hs.held
    · rw [hblocks]
      exact hs.nested
  | enter hb => exact ⟨(hs.enter hb).1, .inl ⟨_, _, rfl, (hs.enter hb).2⟩⟩
  | leave =>
    obtain ⟨hr, hmoves, hs'⟩ := hs.leave (g := g)
    refine ⟨hmoves, .inl ⟨_, _, rfl, ?_⟩⟩
    rwa [hr]
  | bind =>
    obtain ⟨hmoves, hs'⟩ := hs.bind .bound (.bound hs.control)
    exact ⟨hmoves, .inl ⟨_, _, rfl, hs'⟩⟩
  | unbind =>
    obtain ⟨hr, hmoves, hs'⟩ := hs.unbind (g := g)
    refine ⟨hmoves, .inl ⟨_, _, rfl, ?_⟩⟩
    rwa [hr]
  | @createTask _ copies p =>
    have hkept := hs.keeps (l.createTask_keeps n copies p hn)
    exact ⟨.of_createTask hs.control hs.frames.boundBy,
      .inl ⟨_, _, rfl, trivial, hkept.frames, hkept.held, hkept.nested⟩⟩
  | send =>
    exact ⟨.of_send hs.control hs.frames.boundBy,
      .inl ⟨_, _, rfl, trivial, hs.frames, hs.held, hs.nested⟩⟩
  | receive hsent hnone =>
    have hs' : Sound root l n (.exec _) k :=
      ⟨hs.control.tail .received, hs.frames, hs.held, hs.nested⟩
    exact ⟨.of_host l n l.host, .inl ⟨_, _, rfl, hs'⟩⟩
  | resume hsent hsome =>
    obtain ⟨hmoves, hs'⟩ := hs.bind .resumed (hcarried _ hsent _ _ _ hsome)
    exact ⟨hmoves, .inl ⟨_, _, rfl, hs'⟩⟩
  | finish => exact ⟨.of_host l n l.host, .inr ⟨⟨_, rfl⟩, hs.nested.bracketed⟩⟩

/-! ## All tasks -/

/-- The context that a task runs in. -/
def TaskState.context : TaskState ε K σ → Option ℕ
  | .running n _ _ => some n
  | _ => none

variable [DecidableEq ι]

/-- Every task has a context of its own. -/
structure Tasks.Owned (c : Tasks ι ε K σ) : Prop where
  running : ∀ i n, (c.locals i).context = some n → n < c.shared.vars.contexts
  sole : ∀ i j n, (c.locals i).context = some n → (c.locals j).context = some n → i = j
  ready : ∀ e ∈ c.shared.ready, e.1 < c.shared.vars.contexts ∧ ∀ i, (c.locals i).context ≠ some e.1
  nodup : (c.shared.ready.map Prod.fst).Nodup

/-- What is known of the loop and of all tasks. -/
structure Tasks.Ok (root : TaskProgram ε K σ × TraceContext) (t : Telemetry K)
    (c : Tasks ι ε K σ) : Prop where
  owned : c.Owned
  recorded : Recorded root c.shared.events
  carried : c.shared.Carried root
  emits : EmitsAll c.shared.left t c.shared.telemetry
  running : ∀ i n x k, c.locals i = .running n x k → Sound root c.shared n x k
  ready : ∀ e ∈ c.shared.ready, Waiting root c.shared e.1 e.2
  rest : ∀ n, (∀ i, (c.locals i).context ≠ some n) → Bracketed (c.shared.eventsOf n)

variable {c : Tasks ι ε K σ} {i : ι} {t : Telemetry K} {t' : TaskState ε K σ}

/-- A task that runs stays in its context or ends, and at most one task is made. -/
theorem Tasks.Owned.move (h : c.Owned) (hi : (c.locals i).context = some n)
    (hmoves : c.shared.Moves root n l') (ht' : t'.context = some n ∨ t'.context = none) :
    Tasks.Owned (c.set i l' t') := by
  have hcontexts : c.shared.vars.contexts ≤ l'.vars.contexts := by
    rcases hmoves.made with ⟨-, heq⟩ | ⟨p, -, heq, -⟩ <;> omega
  -- nobody has a context that it did not have before
  have hback (j : ι) (m : ℕ) (hj : ((c.set i l' t').locals j).context = some m) :
      (c.locals j).context = some m := by
    by_cases hji : j = i
    · subst hji
      rw [Config.set_locals_self] at hj
      rcases ht' with ht' | ht' <;> rw [ht'] at hj
      · rwa [hi]
      · simp at hj
    · rwa [Config.set_locals_ne c l' t' hji] at hj
  refine ⟨fun j m hj ↦ (h.running j m (hback j m hj)).trans_le hcontexts,
    fun j j' m hj hj' ↦ h.sole j j' m (hback j m hj) (hback j' m hj'), ?_, ?_⟩
  · have hold : ∀ e ∈ c.shared.ready, e.1 < l'.vars.contexts ∧
        ∀ j, ((c.set i l' t').locals j).context ≠ some e.1 := fun e he ↦
      ⟨(h.ready e he).1.trans_le hcontexts, fun j hj ↦ (h.ready e he).2 j (hback j _ hj)⟩
    rw [Config.set_shared]
    rcases hmoves.made with ⟨heq, -⟩ | ⟨p, heq, hlen, -⟩ <;> rw [heq]
    · exact hold
    · rw [List.forall_mem_append, List.forall_mem_singleton]
      refine ⟨hold, by omega, fun j hj ↦ ?_⟩
      exact lt_irrefl _ (h.running j _ (hback j _ hj))
  · rw [Config.set_shared]
    rcases hmoves.made with ⟨heq, -⟩ | ⟨p, heq, -, -⟩ <;> rw [heq]
    · exact h.nodup
    · rw [List.map_append, List.nodup_append]
      refine ⟨h.nodup, List.nodup_singleton _, fun m hm m' hm' ↦ ?_⟩
      obtain ⟨e, he, rfl⟩ := List.mem_map.mp hm
      obtain rfl := List.mem_singleton.mp hm'
      exact (h.ready e he).1.ne

/-- A task that starts gets the context that was made for it. -/
theorem Tasks.Owned.start (h : c.Owned) {before after : List (ℕ × TaskProgram ε K σ)}
    (hready : c.shared.ready = before ++ (n, p) :: after) (ht' : t'.context = some n) :
    Tasks.Owned (c.set i { c.shared with ready := before ++ after } t') := by
  have hmem : (n, p) ∈ c.shared.ready := hready ▸ List.mem_append_right _ (List.mem_cons_self ..)
  have hsub : (before ++ after).Sublist c.shared.ready :=
    hready ▸ (List.Sublist.refl before).append (List.sublist_cons_self _ _)
  have hback (j : ι) (m : ℕ)
      (hj : ((c.set i { c.shared with ready := before ++ after } t').locals j).context = some m) :
      j = i ∧ m = n ∨ j ≠ i ∧ (c.locals j).context = some m := by
    by_cases hji : j = i
    · subst hji
      rw [Config.set_locals_self, ht'] at hj
      exact .inl ⟨rfl, (Option.some.inj hj).symm⟩
    · rw [Config.set_locals_ne c _ t' hji] at hj
      exact .inr ⟨hji, hj⟩
  refine ⟨fun j m hj ↦ ?_, fun j j' m hj hj' ↦ ?_, fun e he ↦ ?_, ?_⟩
  · rcases hback j m hj with ⟨-, rfl⟩ | ⟨-, hj⟩
    · exact (h.ready _ hmem).1
    · exact h.running j m hj
  · rcases hback j m hj with ⟨hji, hm⟩ | ⟨-, hold⟩ <;>
      rcases hback j' m hj' with ⟨hji', hm'⟩ | ⟨-, hold'⟩
    · exact hji.trans hji'.symm
    · exact absurd (hm ▸ hold') ((h.ready _ hmem).2 j')
    · exact absurd (hm' ▸ hold) ((h.ready _ hmem).2 j)
    · exact h.sole j j' m hold hold'
  · have hold := h.ready e (hsub.subset he)
    refine ⟨hold.1, fun j hj ↦ ?_⟩
    rcases hback j _ hj with ⟨-, hen⟩ | ⟨-, hj⟩
    · -- the contexts of those that have yet to start are all different
      have hnodup := h.nodup
      rw [hready, List.map_append, List.map_cons, List.nodup_middle, List.nodup_cons,
        ← List.map_append] at hnodup
      exact hnodup.1 (List.mem_map.mpr ⟨e, he, hen⟩)
    · exact hold.2 j hj
  · exact (hsub.map Prod.fst).nodup h.nodup

/-- A task that runs takes a step. -/
theorem Tasks.Ok.move {x : Control ε K σ} (h : c.Ok root t) (hi : c.locals i = .running n x k)
    (hstep : TaskStep g c.shared (.running n x k) l' t') :
    Tasks.Ok root t (c.set i l' t') := by
  have hcontext : (c.locals i).context = some n := by rw [hi]; rfl
  obtain ⟨hmoves, hgoes⟩ :=
    hstep.sound (h.running i n x k hi) (h.owned.running i n hcontext) h.carried
  have hothers (j : ι) (m : ℕ) (hji : j ≠ i) (hj : (c.locals j).context = some m) :
      c.shared.Keeps m l' :=
    hmoves.keeps m (fun hm ↦ hji (h.owned.sole j i n (hm ▸ hj) hcontext)) (h.owned.running j m hj)
  have ht' : t'.context = some n ∨ t'.context = none := by
    rcases hgoes with ⟨x', k', rfl, -⟩ | ⟨⟨r, rfl⟩, -⟩
    · exact .inl rfl
    · exact .inr rfl
  refine ⟨h.owned.move hcontext hmoves ht', hmoves.recorded h.recorded, hmoves.carried h.carried,
    hmoves.emits t h.emits, fun j m y k' hj ↦ ?_, ?_, fun m hm ↦ ?_⟩
  · by_cases hji : j = i
    · subst hji
      rw [Config.set_locals_self] at hj
      rcases hgoes with ⟨x', k'', heq, hs⟩ | ⟨⟨r, heq⟩, -⟩ <;> rw [hj] at heq
      · obtain ⟨rfl, rfl, rfl⟩ := TaskState.running.inj heq
        exact hs
      · cases heq
    · rw [Config.set_locals_ne c l' t' hji] at hj
      exact (h.running j m y k' hj).keeps (hothers j m hji (by rw [hj]; rfl))
  · have hold : ∀ e ∈ c.shared.ready, Waiting root l' e.1 e.2 := fun e he ↦ by
      obtain ⟨hlt, hne⟩ := h.owned.ready e he
      exact (h.ready e he).keeps (hmoves.keeps _ (fun hen ↦ hne i (hen ▸ hcontext)) hlt)
    rw [Config.set_shared]
    rcases hmoves.made with ⟨heq, -⟩ | ⟨p, heq, -, hwaiting⟩ <;> rw [heq]
    · exact hold
    · rw [List.forall_mem_append, List.forall_mem_singleton]
      exact ⟨hold, hwaiting⟩
  · rw [Config.set_shared]
    by_cases hmn : m = n
    · subst hmn
      have hi' := hm i
      rw [Config.set_locals_self] at hi'
      rcases hgoes with ⟨x', k', rfl, -⟩ | ⟨-, hbracketed⟩
      · exact absurd rfl hi'
      · exact hbracketed
    · rw [hmoves.events m hmn]
      refine h.rest m fun j hj ↦ ?_
      by_cases hji : j = i
      · exact hmn (Option.some.inj (hj.symm.trans (hji ▸ hcontext)))
      · exact hm j (by rwa [Config.set_locals_ne c l' t' hji])

/-- A task starts. -/
theorem Tasks.Ok.start (h : c.Ok root t) {before after : List (ℕ × TaskProgram ε K σ)}
    (hi : c.locals i = .idle) (hready : c.shared.ready = before ++ (n, p) :: after) :
    Tasks.Ok root t
      (c.set i { c.shared with ready := before ++ after } (.running n (.exec p) [])) := by
  have hmem : (n, p) ∈ c.shared.ready := hready ▸ List.mem_append_right _ (List.mem_cons_self ..)
  have hfree : ∀ j, (c.locals j).context ≠ some n := (h.owned.ready _ hmem).2
  refine ⟨h.owned.start hready rfl, h.recorded, h.carried, h.emits, fun j m y k' hj ↦ ?_,
    fun e he ↦ ?_, fun m hm ↦ ?_⟩
  · by_cases hji : j = i
    · subst hji
      rw [Config.set_locals_self] at hj
      obtain ⟨rfl, rfl, rfl⟩ := TaskState.running.inj hj
      exact ⟨(h.ready _ hmem).inside, (h.ready _ hmem).boundBy, trivial, .outside (h.rest _ hfree)⟩
    · rw [Config.set_locals_ne c _ _ hji] at hj
      have hs := h.running j m y k' hj
      exact ⟨hs.control, hs.frames, hs.held, hs.nested⟩
  · have hold : e ∈ c.shared.ready := by
      rw [hready]
      exact ((List.Sublist.refl before).append (List.sublist_cons_self _ _)).subset he
    exact ⟨(h.ready e hold).inside, (h.ready e hold).boundBy⟩
  · refine h.rest m fun j hj ↦ ?_
    by_cases hji : j = i
    · rw [hji, hi] at hj
      simp [TaskState.context] at hj
    · exact hm j (by rwa [Config.set_locals_ne c _ _ hji])

/-- **Every step keeps the invariant.** -/
theorem Tasks.Ok.step (h : c.Ok root t)
    (hstep : TaskStep g c.shared (c.locals i) l' t') : Tasks.Ok root t (c.set i l' t') := by
  generalize hi : c.locals i = t₀ at hstep
  cases t₀ with
  | idle =>
    cases hstep with
    | start hready => exact h.start hi hready
  | running n x k => exact h.move hi hstep
  | done r => cases hstep

/-- One task runs the program, in the only context. -/
theorem Tasks.init_ok (main : ι) (p : TaskProgram ε K σ) (host : σ) (values : TraceValues)
    (t : Telemetry K) : (Tasks.init main p host values t).Ok (p, values.read) t := by
  have hlocals (j : ι) (m : ℕ) (x : Control ε K σ) (k : List (Frame ε K σ))
      (hj : (Tasks.init main p host values t).locals j = .running m x k) :
      j = main ∧ m = 0 ∧ x = .exec p ∧ k = [] := by
    rw [Tasks.init] at hj
    by_cases hjm : j = main
    · subst hjm
      simp only [Function.update_self] at hj
      obtain ⟨rfl, rfl, rfl⟩ := TaskState.running.inj hj
      exact ⟨rfl, rfl, rfl, rfl⟩
    · simp [Function.update_of_ne hjm] at hj
  have hcontext (j : ι) (m : ℕ)
      (hj : ((Tasks.init main p host values t).locals j).context = some m) : j = main ∧ m = 0 := by
    generalize hs : (Tasks.init main p host values t).locals j = s at hj
    cases s with
    | running m' x k =>
      obtain rfl := Option.some.inj hj
      exact ⟨(hlocals j m' x k hs).1, (hlocals j m' x k hs).2.1⟩
    | idle | done => simp [TaskState.context] at hj
  refine ⟨⟨fun j m hj ↦ ?_, fun j j' m hj hj' ↦ ?_, by simp [Tasks.init, Loop.init], ?_⟩, .nil,
    by simp [Loop.Carried, Tasks.init, Loop.init], .nil, fun j m x k hj ↦ ?_,
    by simp [Tasks.init, Loop.init], fun m _ ↦ .nil⟩
  · rw [(hcontext j m hj).2]
    exact Nat.one_pos
  · rw [(hcontext j m hj).1, (hcontext j' m hj').1]
  · exact List.nodup_nil
  · obtain ⟨-, rfl, rfl, rfl⟩ := hlocals j m x k hj
    exact ⟨.refl, .main, trivial, .outside .nil⟩

/-! ## The trees -/

end WiseTraceLoom
