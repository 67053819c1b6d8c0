import WiseTraceLoom.Instrumentation.Emission
import WiseTraceLoom.Instrumentation.FailOpen
import WiseTraceLoom.Instrumentation.Identity
import WiseTraceLoom.Residency.Cache
import WiseTraceLoom.Residency.Checkpoints
import WiseTraceLoom.Tenancy.Directory

/-!
# Does a viewer find the spans of a tenant?

Four places take the tenant of a span: the stream it is stored on, the store of the tenant's region,
the row, and the memberships of viewers.  The name of the stream and the memberships are made of the
name without white space around it; the region and the rows are looked up by the name as it was
given.

`viewer_sees_span_iff` says what this comes to: a viewer who asks in any spelling of the namespace,
and in the very spelling of the tenant the span was recorded with, is shown the span in every run;
in no other spelling of the tenant is this so.
-/

set_option autoImplicit false

namespace WiseTraceLoom

open Interleaving

/-! ## Queries of routed stores -/

/-- What `query_latest` raises, the look-up of the store included. -/
inductive RoutedQueryError where
  | query (e : QueryError)
  | unrouted (e : UnroutedRegionError)
  deriving DecidableEq

/-- `query_latest`, which looks up the store of the tenant; `w` is the store a path leads to. -/
def queryLatestRouted (memberships : List Membership) (routing : Routing) (w : Str → Store)
    (principalId tenantId : Str) (ns : Option Str) (streamBase : Str) :
    Except RoutedQueryError (List Json) :=
  let ns := ns.getD defaultNamespace
  match assertViewerAccess memberships principalId tenantId (some ns) with
  | .error e => .error (.query (.access e))
  | .ok () =>
    match isolatedStreamId streamBase tenantId (some ns) with
    | .error e => .error (.query (.tenancy e))
    | .ok streamId =>
      match routing.resolveEngine (some tenantId) with
      | .error e => .error (.unrouted e)
      | .ok path =>
        match readLatest (w path) streamId (some tenantId) with
        | none => .error (.query .read)
        | some payloads => .ok payloads

/-- On the store of the tenant it is the `query_latest` of this store. -/
theorem queryLatestRouted_eq {memberships : List Membership} {routing : Routing} {w : Str → Store}
    {t path : Str} (hpath : routing.resolveEngine (some t) = .ok path) (p : Str) (n : Option Str)
    (base : Str) : queryLatestRouted memberships routing w p t n base =
      (queryLatest memberships (w path) p t n base).mapError .query := by
  rw [queryLatestRouted, queryLatest]
  simp only [hpath]
  cases assertViewerAccess memberships p t (some (n.getD defaultNamespace)) with
  | error e => rfl
  | ok _ =>
    simp only
    cases isolatedStreamId base t (some (n.getD defaultNamespace)) with
    | error e => rfl
    | ok s =>
      simp only
      cases readLatest (w path) s (some t) <;> rfl

variable {ι ρ : Type} [DecidableEq ι] [DecidableEq ρ] {F : Fernet} {r : ρ}

/-! ## Runs that spare a stream -/

/-- Runs, with their histories, in which no step writes over a file of the stream `s` at `r`. -/
abbrev SparingStream (F : Fernet) (r : ρ) (s : Str) :
    Fleet ι ρ → List (ρ × Call) → Fleet ι ρ → Prop :=
  Trace fun c i w' t' ↦ FleetStep F c.shared (c.locals i) w' t' ∧ Fleet.SparesOf c r s t'

theorem SparingFleet.stream {c d : Fleet ι ρ} {history : List (ρ × Call)}
    (h : SparingFleet F c history d) (r : ρ) (s : Str) : SparingStream F r s c history d :=
  Trace.mono (fun hstep ↦ ⟨hstep.1, hstep.2 r s⟩) h

/-- **In such a run the files of the stream hold its rows.** -/
theorem SparingStream.backs {database : ρ → Str} {site : ι → ρ} {history : List (ρ × Call)}
    {c : Fleet ι ρ} {s : Str} (h : SparingStream F r s (Fleet.init database site) history c) :
    Fleet.Ok c ∧ Fleet.Backs c r s :=
  h.invariant (I := fun c ↦ Fleet.Ok c ∧ Fleet.Backs c r s)
    (fun _ _ _ _ hd hstep ↦ ⟨hd.1.step hstep.1, hd.2.step hd.1 hstep.1 hstep.2⟩)
    ⟨Fleet.ok_init database site, Fleet.backs_init database site r s⟩

omit [DecidableEq ι] [DecidableEq ρ] in
/-- **What a viewer is shown** as long as the files of the stream hold its rows. -/
theorem Fleet.queryLatestRouted_eq {c : Fleet ι ρ} (hc : Fleet.Ok c) {engine : Str → ρ}
    {memberships : List Membership} {routing : Routing} {p t base s path : Str} {n : Option Str}
    (haccess : assertViewerAccess memberships p t (some (n.getD defaultNamespace)) = .ok ())
    (hstream : isolatedStreamId base t (some (n.getD defaultNamespace)) = .ok s)
    (hpath : routing.resolveEngine (some t) = .ok path) (hbacks : Fleet.Backs c (engine path) s) :
    ∃ payloads, queryLatestRouted memberships routing (fun path ↦ c.shared (engine path)) p t n
        base = .ok payloads ∧
      (((c.shared (engine path)).stream s).filter fun row ↦ row.tenantId = some t).map
        (fun row ↦ Json.loads row.payload) = payloads.map some := by
  obtain ⟨payloads, hread, hmap⟩ := readLatest_eq ((hc.audit (engine path)).log s)
    (hc.checkpoints (engine path))
    (fun ck hck ↦ hbacks.checkpoints ck hck.mem hck.streamId) t
  refine ⟨payloads, ?_, hmap⟩
  rw [WiseTraceLoom.queryLatestRouted_eq hpath, queryLatest]
  simp only [haccess, hstream, hread]
  rfl

omit [DecidableEq ι] [DecidableEq ρ] in
/-- Nobody is shown anything under a name no row has. -/
theorem Fleet.queryLatestRouted_nil {c : Fleet ι ρ} (hc : Fleet.Ok c) {engine : Str → ρ}
    {memberships : List Membership} {routing : Routing} {p t base s path : Str} {n : Option Str}
    (haccess : assertViewerAccess memberships p t (some (n.getD defaultNamespace)) = .ok ())
    (hstream : isolatedStreamId base t (some (n.getD defaultNamespace)) = .ok s)
    (hpath : routing.resolveEngine (some t) = .ok path) (hbacks : Fleet.Backs c (engine path) s)
    (hnone : ∀ row ∈ (c.shared (engine path)).commits, row.tenantId ≠ some t) :
    queryLatestRouted memberships routing (fun path ↦ c.shared (engine path)) p t n base =
      .ok [] := by
  obtain ⟨payloads, hquery, hmap⟩ :=
    Fleet.queryLatestRouted_eq hc haccess hstream hpath hbacks
  have hempty : ((c.shared (engine path)).stream s).filter (fun row ↦ row.tenantId = some t) = [] :=
    List.filter_eq_nil_iff.mpr fun row hrow htenant ↦
      hnone row (List.mem_filter.mp hrow).1 (of_decide_eq_true htenant)
  rw [hempty, List.map_nil, eq_comm, List.map_eq_nil_iff] at hmap
  rw [hquery, hmap]

/-! ## Spans and their rows -/

/-- The row of a span is on the stream of the span, and of its tenant. -/
theorem Span.Emits.row {ε K : Type} {sdk : Sdk ε K} {span : Span K} {ns : Option Str}
    {q : QueuedAppend} {row : StorageCommit} (hemit : span.Emits sdk ns q)
    (hrow : q.args.Writes row) :
    span.streamId ns = .ok row.streamId ∧ row.tenantId = span.tenantId := by
  obtain ⟨streamId, payload, hstream, -, rfl⟩ := hemit.eq
  exact ⟨by rw [hrow.streamId]; exact hstream, hrow.tenantId⟩

section

variable {ε K : Type} {sdk : Sdk ε K} {span : Span K} {ns n : Option Str} {q : QueuedAppend}
  {tenant t p : Str} {u : Unicode} {dir : Directory}

/-- Whoever spells tenant and namespace alike but for white space asks for the stream of the
span, … -/
theorem Span.Emits.stream (hemit : span.Emits sdk ns q) (htenant : span.tenantId = some tenant)
    (ht : Text.strip t = Text.strip tenant)
    (hn : Text.strip (n.getD defaultNamespace) = Text.strip (ns.getD defaultNamespace)) :
    isolatedStreamId "spans".toList t (some (n.getD defaultNamespace)) = .ok q.streamId := by
  obtain ⟨streamId, payload, hstream, -, rfl⟩ := hemit.eq
  rw [Span.streamId, htenant] at hstream
  rw [← hstream]
  exact isolatedStreamId_congr rfl ht hn

/-- … and passes the gate if any role is resolved. -/
theorem Directory.Reachable.access (hdir : dir.Reachable u)
    (ht : Text.strip t = Text.strip tenant)
    (hn : Text.strip (n.getD defaultNamespace) = Text.strip (ns.getD defaultNamespace))
    (hrole : resolveRole dir.memberships p tenant ns ≠ none) :
    assertViewerAccess dir.memberships p t (some (n.getD defaultNamespace)) = .ok () := by
  rwa [hdir.access_iff, resolveRole_getD, resolveRole_congr dir.memberships p ht hn]

/-- Somebody may view the span. -/
theorem Span.Emits.exists_viewer (u : Unicode) (hemit : span.Emits sdk ns q)
    (htenant : span.tenantId = some tenant) :
    ∃ dir p, Directory.Reachable u dir ∧ resolveRole dir.memberships p tenant ns ≠ none := by
  obtain ⟨streamId, payload, hstream, -, rfl⟩ := hemit.eq
  rw [Span.streamId, htenant] at hstream
  obtain ⟨name, name', hname, hname', -⟩ := isolatedStreamId_eq_ok.mp hstream
  rw [validateNamespace_eq] at hname'
  obtain ⟨rfl, hne, -⟩ := validateName_eq_ok.mp hname'
  exact WiseTraceLoom.exists_viewer u hname hne

end

/-- A run that stores one append and nothing else. -/
theorem exists_only_row (F : Fernet) [Nonempty ι] (database : ρ → Str) (r : ρ) (q : QueuedAppend) :
    ∃ (history : List (ρ × Call)) (c : Fleet ι ρ) (row : StorageCommit),
      SparingFleet F (Fleet.init database fun _ ↦ r) history c ∧ q.args.Writes row ∧
      row ∈ (c.shared r).commits ∧ ∀ r', ∀ row' ∈ (c.shared r').commits, row' = row := by
  obtain ⟨i⟩ := ‹Nonempty ι›
  let t : AppendTask := ⟨q.streamId, q.recordType, q.tenantId, 20, q.payload⟩
  have ht : q.args.prepare (fun p ↦ .ok (.dict p)) = .ok t := rfl
  have h0 : FleetHistory F (Fleet.init database fun _ : ι ↦ r) [] (Fleet.init database fun _ ↦ r) :=
    .nil
  obtain ⟨c, hc, -, hst, -⟩ := h0.solo (fun _ _ ↦ rfl) i rfl
    (firstAppend_trace ht (show 0 < 20 by decide) rfl)
  have hsparing := (hc.sparing (r := r) (s := q.streamId) (by simp [firstAppend])).1
  refine ⟨_, c, _, hsparing, ⟨_, t, 1, none, noon, ht, rfl⟩, ?_, fun r' row' hrow' ↦ ?_⟩
  · rw [hst, Fleet.after_self]
    exact List.mem_singleton_self _
  · rw [hst] at hrow'
    by_cases hr : r' = r
    · subst hr
      rw [Fleet.after_self] at hrow'
      exact List.mem_singleton.mp hrow'
    · rw [Fleet.after_ne _ _ hr] at hrow'
      simp [Fleet.init, Store.create] at hrow'

/-- **When a viewer finds a span.**  A viewer who has a role on the tenant and the namespace of a
span, and who spells both in whatever way that is the same without white space around it, is shown
every stored row of the span in every run that spares its stream, if and only if the tenant is
spelled exactly as in the span. -/
theorem viewer_sees_span_iff {ε K : Type} (u : Unicode) (F : Fernet) [Nonempty ι]
    (database : ρ → Str) (engine : Str → ρ) (routing : Routing) {sdk : Sdk ε K} {span : Span K}
    {ns : Option Str} {q : QueuedAppend} (hemit : span.Emits sdk ns q) {tenant path : Str}
    (htenant : span.tenantId = some tenant) (hpath : routing.resolveEngine (some tenant) = .ok path)
    {t : Str} {n : Option Str} (ht : Text.strip t = Text.strip tenant)
    (hn : Text.strip (n.getD defaultNamespace) = Text.strip (ns.getD defaultNamespace)) :
    (∀ (site : ι → ρ) (history : List (ρ × Call)) (c : Fleet ι ρ),
      SparingStream F (engine path) q.streamId (Fleet.init database site) history c →
      ∀ row ∈ (c.shared (engine path)).commits, q.args.Writes row →
      ∀ dir p, Directory.Reachable u dir → resolveRole dir.memberships p tenant ns ≠ none →
        ∃ payloads value, queryLatestRouted dir.memberships routing
            (fun path ↦ c.shared (engine path)) p t n "spans".toList = .ok payloads ∧
          Json.loads row.payload = some value ∧ value ∈ payloads) ↔ t = tenant := by
  have hstream := hemit.stream htenant ht hn
  constructor
  · intro hall
    by_contra hne
    -- a run in which the span is the only thing stored, and somebody who may view it
    obtain ⟨history, c, row, hrun, hwrites, hrow, honly⟩ :=
      exists_only_row (ι := ι) F database (engine path) q
    obtain ⟨dir, p, hdir, hrole⟩ := hemit.exists_viewer u htenant
    have haccess := hdir.access ht hn hrole
    obtain ⟨payloads, value, hquery, -, hvalue⟩ :=
      hall _ history c (hrun.stream _ _) row hrow hwrites dir p hdir hrole
    have hrowTenant : row.tenantId = some tenant := by rw [(hemit.row hwrites).2, htenant]
    cases hroute : routing.resolveEngine (some t) with
    | error e =>
      rw [queryLatestRouted] at hquery
      simp only [haccess, hstream, hroute] at hquery
      cases hquery
    | ok path' =>
      rw [Fleet.queryLatestRouted_nil hrun.owned.ok haccess hstream hroute
        (hrun.owned.backs _ _) fun row' hrow' htenant' ↦ ?_] at hquery
      · rw [← Except.ok.inj hquery] at hvalue
        exact absurd hvalue List.not_mem_nil
      · rw [honly _ row' hrow', hrowTenant] at htenant'
        exact hne (Option.some.inj htenant').symm
  · rintro rfl site history c hrun row hrow hwrites dir p hdir hrole
    obtain ⟨hc, hbacks⟩ := hrun.backs
    obtain ⟨payloads, hquery, hmap⟩ :=
      Fleet.queryLatestRouted_eq hc (hdir.access ht hn hrole) hstream hpath hbacks
    have hmem : Json.loads row.payload ∈ payloads.map some := by
      rw [← hmap]
      refine List.mem_map_of_mem (List.mem_filter.mpr ⟨List.mem_filter.mpr ⟨hrow, ?_⟩, ?_⟩)
      · rw [hwrites.streamId]
        exact decide_eq_true rfl
      · rw [(hemit.row hwrites).2, htenant]
        exact decide_eq_true rfl
    obtain ⟨value, hvalue, hloads⟩ := List.mem_map.mp hmem
    exact ⟨payloads, value, hquery, hloads.symm, hvalue⟩

/-! ### A tenant with a space before its name -/

/-- A tool call of a tenant. -/
def tenantSpan (tenant : Str) : Span ℕ :=
  .tool
    { schemaVersion := schemaVersion, spanId := "53995c3f42cd8ad8".toList
      traceId := "0af7651916cd43dd8448eb211c80319c".toList, parentSpanId := none
      tenantId := some tenant, startedAt := utcnow noon, endedAt := some (utcnow noon)
      toolName := "search".toList, toolCallId := none, toolType := "function".toList
      description := none, success := some true, errorMessage := none }

/-- What it is dumped to. -/
def tenantDump (s : Span ℕ) : Payload :=
  s.modelDump ⟨Datetime.isoformat, fun _ ↦ plainText.float ()⟩

/-- What is handed to the writer thread. -/
def tenantAppend (tenant : Str) : QueuedAppend :=
  ⟨"spans:acme:default".toList, "tool_span".toList, tenantDump (tenantSpan tenant), some tenant⟩

/-- An SDK that dumps spans. -/
def dumpingSdk : Sdk Str ℕ := { quietSdk with storeDump := fun s ↦ .ok (tenantDump s) }

/-- The store of its region, and the default one. -/
def acmeDatabase (eu : Bool) : Str := if eu then "eu.db".toList else "store.db".toList

theorem tenantSpan_emits : (tenantSpan "acme".toList).Emits dumpingSdk none
    (tenantAppend "acme".toList) := ⟨⟨[], [], [], [], []⟩, rfl⟩

theorem acme_sees_span : ∃ (c : Fleet Unit Bool) (row : StorageCommit) (dir : Directory) (p : Str)
    (payloads : List Json) (value : Json),
    row ∈ (c.shared true).commits ∧ (tenantAppend "acme".toList).args.Writes row ∧
    queryLatestRouted dir.memberships acmeRouting
      (fun path ↦ c.shared (path = "eu.db".toList)) p "acme".toList
      (some " default".toList) "spans".toList = .ok payloads ∧
    Json.loads row.payload = some value ∧ value ∈ payloads := by
  let F : Fernet := ⟨fun _ _ p ↦ p, fun _ t ↦ some t⟩
  obtain ⟨history, c, row, hrun, hwrites, hrow, -⟩ :=
    exists_only_row (ι := Unit) F acmeDatabase true (tenantAppend "acme".toList)
  have hname : validateName "acme".toList "tenant_id".toList = .ok "acme".toList := by decide
  have hns : Text.strip ((none : Option Str).getD defaultNamespace) ≠ [] := by decide
  obtain ⟨dir, p, hdir, hrole⟩ := exists_viewer .ascii hname hns
  have hpath : acmeRouting.resolveEngine (some "acme".toList) = .ok "eu.db".toList := by decide
  obtain ⟨payloads, value, hquery, hloads, hvalue⟩ :=
    (viewer_sees_span_iff .ascii F acmeDatabase (fun path ↦ decide (path = "eu.db".toList))
      acmeRouting tenantSpan_emits rfl hpath rfl (n := some " default".toList) (by decide)).mpr rfl
      _ history c (hrun.stream _ _) row hrow hwrites dir p hdir hrole
  exact ⟨c, row, dir, p, payloads, value, hrow, hwrites, hquery, hloads, hvalue⟩

/-- **The other way round**: a span is recorded for the tenant ` acme`.  Its stream is that of
`acme`, and so are the viewers, but a viewer who asks for `acme` is shown nothing. -/
theorem spaced_tenant_unseen : ∃ (F : Fernet) (history : List (Bool × Call)) (c : Fleet Unit Bool)
    (row : StorageCommit) (dir : Directory) (p : Str),
    (tenantSpan " acme".toList).Emits dumpingSdk none (tenantAppend " acme".toList) ∧
    Text.strip "acme".toList = Text.strip " acme".toList ∧
    SparingFleet F (Fleet.init acmeDatabase fun _ ↦ false) history c ∧
    (tenantAppend " acme".toList).args.Writes row ∧ row ∈ (c.shared false).commits ∧
    Directory.Reachable .ascii dir ∧ resolveRole dir.memberships p " acme".toList none ≠ none ∧
    queryLatestRouted dir.memberships ⟨"store.db".toList, [], []⟩
      (fun path ↦ c.shared (path = "eu.db".toList)) p "acme".toList none "spans".toList =
      .ok [] := by
  let F : Fernet := ⟨fun _ _ p ↦ p, fun _ t ↦ some t⟩
  obtain ⟨history, c, row, hrun, hwrites, hrow, honly⟩ :=
    exists_only_row (ι := Unit) F acmeDatabase false (tenantAppend " acme".toList)
  have hname : validateName " acme".toList "tenant_id".toList = .ok "acme".toList := by decide
  have hns : Text.strip ((none : Option Str).getD defaultNamespace) ≠ [] := by decide
  obtain ⟨dir, p, hdir, hrole⟩ := exists_viewer .ascii hname hns
  have haccess : assertViewerAccess dir.memberships p "acme".toList
      (some ((none : Option Str).getD defaultNamespace)) = .ok () :=
    hdir.access (by decide) rfl hrole
  refine ⟨F, history, c, row, dir, p, ⟨⟨[], [], [], [], []⟩, rfl⟩, by decide, hrun, hwrites, hrow,
    hdir, hrole, ?_⟩
  have hpath : Routing.resolveEngine ⟨"store.db".toList, [], []⟩ (some "acme".toList) =
    .ok "store.db".toList := rfl
  refine Fleet.queryLatestRouted_nil hrun.owned.ok haccess
    (show _ = Except.ok "spans:acme:default".toList by decide) hpath (hrun.owned.backs _ _) ?_
  intro row' hrow' htenant
  rw [honly _ row' hrow', hwrites.tenantId] at htenant
  exact absurd (Option.some.inj htenant) (by decide)

end WiseTraceLoom
