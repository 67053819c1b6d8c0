import WiseTraceLoom.Tenancy.History

/-!
# Calls that raise

A call of the host checks its arguments, looks rows up, writes and commits, and reads the written
row back.  Each of these may raise.  Here the statements are written out, `Faults` says which of
them fail, and `AdminCall.attempt` is what a call raises together with the tables it leaves.

Everything that raises before the commit leaves the tables as they were.  After it there is the
refresh of the row, and in `create_tenant` a whole second session: the owner's name is validated
when the tenant has been committed.  `tenancy_atomic_iff` says that nothing else is amiss.

## What is here

* `Directory.Consistent`: memberships refer to rows, tenants have their default namespace, and the
  unique constraints hold.  `Directory.Reachable.consistent`.
* `registerTenantTry`, `createNamespaceTry`, `grantRoleTry`, `revokeRoleTry`: the sessions up to the
  commit.  They return what the calls of `Directory` return, if no statement fails
  (`AdminCall.attempt_noFaults`).
* `AdminCall.Strands`: the call raises after a commit that has changed something.
-/

set_option autoImplicit false

namespace WiseTraceLoom

variable {u : Unicode} {now : Timestamp} {dir dir' : Directory}

/-! ## What holds of the tables -/

theorem Directory.ext_iff : dir = dir' ↔ dir.tenants = dir'.tenants ∧
    dir.namespaces = dir'.namespaces ∧ dir.memberships = dir'.memberships := by
  cases dir
  cases dir'
  simp

/-- What identifies a namespace. -/
def Namespace.key (n : Namespace) : Str × Str := (n.tenantId, n.name)

/-- The tables refer to each other as they should. -/
structure Directory.Consistent (dir : Directory) : Prop where
  /-- A membership names a tenant there is, and all its namespaces or one there is. -/
  membership : ∀ m ∈ dir.memberships, (∃ t ∈ dir.tenants, t.tenantId = m.tenantId) ∧
    (m.ns = tenantWide ∨ ∃ n ∈ dir.namespaces, n.key = (m.tenantId, m.ns))
  /-- A tenant has its default namespace. -/
  default : ∀ t ∈ dir.tenants, ∃ n ∈ dir.namespaces, n.key = (t.tenantId, defaultNamespace)
  /-- `Tenant.tenant_id` is unique. -/
  tenants : (dir.tenants.map Tenant.tenantId).Nodup
  /-- `uq_namespace_tenant_name`. -/
  namespaces : (dir.namespaces.map Namespace.key).Nodup
  /-- `uq_membership_principal_tenant_ns`. -/
  memberships : (dir.memberships.map Membership.key).Nodup

/-- What holds of the tenants and the namespaces, whatever the memberships are. -/
structure Directory.Registered (dir : Directory) : Prop where
  /-- The default namespaces. -/
  default : ∀ t ∈ dir.tenants, ∃ n ∈ dir.namespaces, n.key = (t.tenantId, defaultNamespace)
  /-- A namespace is one of a tenant. -/
  owned : ∀ n ∈ dir.namespaces, ∃ t ∈ dir.tenants, t.tenantId = n.tenantId
  /-- No tenant twice. -/
  tenants : (dir.tenants.map Tenant.tenantId).Nodup
  /-- No namespace twice. -/
  namespaces : (dir.namespaces.map Namespace.key).Nodup

theorem Directory.tenant_eq_none {t : Str} :
    dir.tenant t = none ↔ ∀ row ∈ dir.tenants, row.tenantId ≠ t := by
  rw [Directory.tenant, List.find?_eq_none]
  simp

theorem Directory.ns_eq_none {t name : Str} :
    dir.ns t name = none ↔ ∀ row ∈ dir.namespaces, row.key ≠ (t, name) := by
  rw [Directory.ns, List.find?_eq_none]
  simp [Namespace.key]

/-- The first transaction of `create_tenant` registers a name there was not. -/
theorem registerTenant_fresh {t : Str} {displayName : Option Str} {row : Tenant}
    (h : registerTenant now t displayName dir = .ok (row, dir')) :
    dir.tenant row.tenantId = none := by
  simp only [registerTenant, Except.bind_eq_ok, adminName_eq_ok] at h
  obtain ⟨t', -, h⟩ := h
  split_ifs at h with htenant
  obtain ⟨rfl, -⟩ := Prod.mk.inj (Except.ok.inj h)
  exact not_not.mp htenant

/-- `create_namespace` adds a namespace there was not, to a tenant there is. -/
theorem createNamespace_fresh {t name : Str} {row : Namespace}
    (h : createNamespace now t name dir = .ok (row, dir')) :
    dir.tenant row.tenantId ≠ none ∧ dir.ns row.tenantId row.name = none := by
  simp only [createNamespace, Except.bind_eq_ok, adminName_eq_ok] at h
  obtain ⟨t', -, name', -, h⟩ := h
  split_ifs at h with htenant hns
  obtain ⟨rfl, -⟩ := Prod.mk.inj (Except.ok.inj h)
  exact ⟨htenant, not_not.mp hns⟩

/-- Memberships come and go without touching the other tables. -/
theorem Directory.Puts.tables {m : Membership} (h : dir.Puts m dir') :
    dir'.tenants = dir.tenants ∧ dir'.namespaces = dir.namespaces := by
  rcases h with ⟨-, rfl⟩ | ⟨-, rfl⟩
  · exact ⟨rfl, rfl⟩
  · exact ⟨rfl, rfl⟩

theorem Directory.Registered.congr (h : dir.Registered) (htenants : dir'.tenants = dir.tenants)
    (hnamespaces : dir'.namespaces = dir.namespaces) : dir'.Registered where
  default := by rw [htenants, hnamespaces]; exact h.default
  owned := by rw [htenants, hnamespaces]; exact h.owned
  tenants := htenants ▸ h.tenants
  namespaces := hnamespaces ▸ h.namespaces

/-- A new tenant with a first namespace. -/
theorem Directory.Registered.addTenant (h : dir.Registered) {row : Tenant} {n : Namespace}
    (hfresh : dir.tenant row.tenantId = none) (hn : n.key = (row.tenantId, defaultNamespace))
    (htenants : dir'.tenants = dir.tenants ++ [row])
    (hnamespaces : dir'.namespaces = dir.namespaces ++ [n]) : dir'.Registered := by
  rw [Directory.tenant_eq_none] at hfresh
  have hnt : n.tenantId = row.tenantId := congrArg Prod.fst hn
  refine ⟨fun t ht ↦ ?_, fun n' hn' ↦ ?_, ?_, ?_⟩
  · rw [hnamespaces]
    rw [htenants, List.mem_append, List.mem_singleton] at ht
    rcases ht with ht | rfl
    · obtain ⟨n', hn', hkey⟩ := h.default t ht
      exact ⟨n', List.mem_append_left _ hn', hkey⟩
    · exact ⟨n, by simp, hn⟩
  · rw [htenants]
    rw [hnamespaces, List.mem_append, List.mem_singleton] at hn'
    rcases hn' with hn' | rfl
    · obtain ⟨t, ht, hname⟩ := h.owned n' hn'
      exact ⟨t, List.mem_append_left _ ht, hname⟩
    · exact ⟨row, by simp, hnt.symm⟩
  · rw [htenants]
    exact nodup_map_concat h.tenants hfresh
  · rw [hnamespaces]
    refine nodup_map_concat h.namespaces fun n' hn' hkey ↦ ?_
    -- it would be a namespace of a tenant there was
    obtain ⟨t, ht, hname⟩ := h.owned n' hn'
    exact hfresh t ht (hname.trans ((congrArg Prod.fst hkey).trans hnt))

/-- A new namespace of a tenant there is. -/
theorem Directory.Registered.addNamespace (h : dir.Registered) {n : Namespace}
    (htenant : dir.tenant n.tenantId ≠ none) (hfresh : dir.ns n.tenantId n.name = none) :
    ({ dir with namespaces := dir.namespaces ++ [n] } : Directory).Registered := by
  refine ⟨fun t ht ↦ ?_, fun n' hn' ↦ ?_, h.tenants, ?_⟩
  · obtain ⟨n', hn', hkey⟩ := h.default t ht
    exact ⟨n', List.mem_append_left _ hn', hkey⟩
  · rcases List.mem_append.mp hn' with hn' | hn'
    · exact h.owned n' hn'
    · rw [List.mem_singleton.mp hn']
      exact Directory.exists_of_tenant htenant
  · exact nodup_map_concat h.namespaces (Directory.ns_eq_none.mp hfresh)

/-- **Every transaction keeps it.** -/
theorem Directory.Registered.step (h : dir.Registered) (hstep : DirectoryStep u dir dir') :
    dir'.Registered := by
  cases hstep with
  | @registerTenant _ now t displayName row hrow =>
    obtain ⟨-, htenants, -, n, hnt, hnn, hnamespaces⟩ := registerTenant_eq_ok hrow
    have hn : n.key = (row.tenantId, defaultNamespace) := by rw [Namespace.key, hnt, hnn]
    exact h.addTenant (registerTenant_fresh hrow) hn htenants hnamespaces
  | @createNamespace _ now t name row hrow =>
    obtain rfl := createNamespace_eq_ok hrow
    obtain ⟨htenant, hns⟩ := createNamespace_fresh hrow
    exact h.addNamespace htenant hns
  | grantRole hm =>
    obtain ⟨-, hputs, -⟩ := grantRole_eq_ok hm
    exact h.congr hputs.tables.1 hputs.tables.2
  | revokeRole p t ns =>
    rw [revokeRole]
    split_ifs
    · exact h
    · exact h.congr rfl rfl

theorem Directory.Reachable.registered (h : dir.Reachable u) : dir.Registered := by
  induction h with
  | refl => exact ⟨fun _ h ↦ absurd h List.not_mem_nil, fun _ h ↦ absurd h List.not_mem_nil,
      List.nodup_nil, List.nodup_nil⟩
  | tail _ hstep ih => exact ih.step hstep

/-- **The tables of every reachable directory are consistent.** -/
theorem Directory.Reachable.consistent (h : dir.Reachable u) : dir.Consistent where
  membership m hm := by
    have hgrants := h.ok.grants m hm
    refine ⟨hgrants.tenant, hgrants.ns.imp_right fun ⟨n, hn, ht, hname⟩ ↦ ⟨n, hn, ?_⟩⟩
    rw [Namespace.key, ht, hname]
  default := h.registered.default
  tenants := h.registered.tenants
  namespaces := h.registered.namespaces
  memberships := h.ok.unique

/-! ## Statements that fail -/

/-- The statements of a session that may raise on their own. -/
inductive AdminStatement where
  | selectTenant
  | selectNamespace
  | selectMembership
  | commit
  | refresh
  deriving DecidableEq

/-- Which statements of a session fail. -/
abbrev Faults := AdminStatement → Bool

/-- What a call raises: its own error, or that of a statement. -/
inductive CallError where
  | admin (e : AdminError)
  | database
  deriving DecidableEq

/-- A statement is executed. -/
def execute (f : Faults) (s : AdminStatement) : Except CallError Unit :=
  if f s then .error .database else .ok ()

/-- A row is looked up, and the call cannot go on if `bad`. -/
def lookUp (f : Faults) (s : AdminStatement) (bad : Prop) [Decidable bad] (e : AdminError) :
    Except CallError Unit := do
  execute f s
  if bad then throw (.admin e) else pure ()

/-- `_validate_name`, for a call. -/
def callName (value field : Str) : Except CallError Str :=
  (adminName value field).mapError .admin

/-- The first session of `create_tenant`, up to the commit. -/
def registerTenantTry (f : Faults) (now : Timestamp) (tenantId : Str) (displayName : Option Str)
    (dir : Directory) : Except CallError (Tenant × Directory) := do
  let tenantId ← callName tenantId "tenant_id".toList
  lookUp f .selectTenant (dir.tenant tenantId ≠ none) (.tenantExists tenantId)
  let row : Tenant :=
    ⟨nextId (dir.tenants.map Tenant.id), tenantId, displayName, (utcnow now).column⟩
  let ns : Namespace :=
    ⟨nextId (dir.namespaces.map Namespace.id), tenantId, defaultNamespace, (utcnow now).column⟩
  execute f .commit
  pure (row,
    { dir with tenants := dir.tenants ++ [row], namespaces := dir.namespaces ++ [ns] })

/-- The session of `create_namespace`, up to the commit. -/
def createNamespaceTry (f : Faults) (now : Timestamp) (tenantId name : Str) (dir : Directory) :
    Except CallError (Namespace × Directory) := do
  let tenantId ← callName tenantId "tenant_id".toList
  let name ← callName name "namespace".toList
  lookUp f .selectTenant (dir.tenant tenantId = none) (.unknownTenant tenantId)
  lookUp f .selectNamespace (dir.ns tenantId name ≠ none) (.namespaceExists name tenantId)
  let row : Namespace :=
    ⟨nextId (dir.namespaces.map Namespace.id), tenantId, name, (utcnow now).column⟩
  execute f .commit
  pure (row, { dir with namespaces := dir.namespaces ++ [row] })

/-- The namespace of a membership is looked up, but not for all of a tenant. -/
def lookUpNamespace (f : Faults) (tenantId ns : Str) (dir : Directory) : Except CallError Unit :=
  if ns = tenantWide then pure ()
  else lookUp f .selectNamespace (dir.ns tenantId ns = none) (.unknownNamespace ns tenantId)

/-- The session of `grant_role`, up to the commit. -/
def grantRoleTry (u : Unicode) (f : Faults) (now : Timestamp) (principalId tenantId role : Str)
    (ns : Option Str) (dir : Directory) : Except CallError (Membership × Directory) := do
  let principalId ← callName principalId "principal_id".toList
  let tenantId ← callName tenantId "tenant_id".toList
  let role := u.lower (Text.strip role)
  if !roles.contains role then throw (.admin (.unknownRole role)) else
  let ns ← (storedNamespace ns).mapError .admin
  lookUp f .selectTenant (dir.tenant tenantId = none) (.unknownTenant tenantId)
  lookUpNamespace f tenantId ns dir
  execute f .selectMembership
  execute f .commit
  pure (dir.putMembership now principalId tenantId ns role)

/-- The session of `revoke_role`. -/
def revokeRoleTry (f : Faults) (principalId tenantId : Str) (ns : Option Str) (dir : Directory) :
    Except CallError Directory := do
  let principalId := Text.strip principalId
  let tenantId := Text.strip tenantId
  let ns := (ns.map Text.strip).getD tenantWide
  if principalId = [] ∨ tenantId = [] ∨ ns = [] then pure dir else
  execute f .selectMembership
  if dir.membership principalId tenantId ns = none then pure dir else
  execute f .commit
  pure { dir with memberships := dir.memberships.eraseP (Membership.isFor principalId tenantId ns) }

/-- The end of a session: what has been committed stays, also if the refresh of the row raises. -/
def endSession {α : Type} (f : Faults) (dir : Directory) :
    Except CallError (α × Directory) → Except CallError α × Directory
  | .error e => (.error e, dir)
  | .ok (row, dir') => (if f .refresh then .error .database else .ok row, dir')

/-- `create_tenant`: the second session is that of `grant_role`. -/
def createTenantTry (u : Unicode) (f f' : Faults) (now : Timestamp) (tenantId : Str)
    (displayName ownerPrincipalId : Option Str) (dir : Directory) :
    Except CallError Tenant × Directory :=
  match endSession f dir (registerTenantTry f now tenantId displayName dir) with
  | (.error e, dir) => (.error e, dir)
  | (.ok row, dir) =>
    match ownerPrincipalId with
    | none => (.ok row, dir)
    | some owner =>
      match endSession f' dir
        (grantRoleTry u f' now owner row.tenantId "owner".toList none dir) with
      | (.error e, dir) => (.error e, dir)
      | (.ok _, dir) => (.ok row, dir)

/-- What is raised, if anything. -/
def raised {α : Type} : Except CallError α → Option CallError
  | .error e => some e
  | .ok _ => none

/-- A call, with the faults of its sessions: what it raises, and the tables it leaves. -/
def AdminCall.attempt (u : Unicode) (f f' : Faults) (now : Timestamp) (dir : Directory) :
    AdminCall → Option CallError × Directory
  | .createTenant t displayName owner =>
    let r := createTenantTry u f f' now t displayName owner dir
    (raised r.1, r.2)
  | .createNamespace t name =>
    let r := endSession f dir (createNamespaceTry f now t name dir)
    (raised r.1, r.2)
  | .grantRole p t role ns =>
    let r := endSession f dir (grantRoleTry u f now p t role ns dir)
    (raised r.1, r.2)
  | .revokeRole p t ns =>
    match revokeRoleTry f p t ns dir with
    | .error e => (some e, dir)
    | .ok dir' => (none, dir')

/-! ### Without faults

The sessions are then the transactions of `Tenancy.Directory`, with their errors. -/

theorem Except.mapError_bind {ε ε' α β : Type} (g : ε → ε') (x : Except ε α)
    (f : α → Except ε β) :
    (x >>= f).mapError g = x.mapError g >>= fun a ↦ (f a).mapError g := by
  cases x <;> rfl

theorem lookUp_noFaults (s : AdminStatement) (bad : Prop) [Decidable bad] (e : AdminError) :
    lookUp (fun _ ↦ false) s bad e = if bad then .error (.admin e) else .ok () := rfl

theorem registerTenantTry_noFaults (t : Str) (displayName : Option Str) :
    registerTenantTry (fun _ ↦ false) now t displayName dir =
      (registerTenant now t displayName dir).mapError .admin := by
  rw [registerTenantTry, registerTenant, Except.mapError_bind]
  refine bind_congr fun t' ↦ ?_
  rw [lookUp_noFaults]
  split_ifs with hold
  · rfl
  · rfl

theorem createNamespaceTry_noFaults (t name : Str) :
    createNamespaceTry (fun _ ↦ false) now t name dir =
      (createNamespace now t name dir).mapError .admin := by
  rw [createNamespaceTry, createNamespace, Except.mapError_bind]
  refine bind_congr fun t' ↦ ?_
  rw [Except.mapError_bind]
  refine bind_congr fun name' ↦ ?_
  rw [lookUp_noFaults, lookUp_noFaults]
  split_ifs with hunknown hold
  · rfl
  · rfl
  · rfl
  · rfl

theorem grantRoleTry_noFaults (p t role : Str) (ns : Option Str) :
    grantRoleTry u (fun _ ↦ false) now p t role ns dir =
      (grantRole u now p t role ns dir).mapError .admin := by
  rw [grantRoleTry, grantRole, Except.mapError_bind]
  refine bind_congr fun p' ↦ ?_
  rw [Except.mapError_bind]
  refine bind_congr fun t' ↦ ?_
  dsimp only
  by_cases hrole : (!roles.contains (u.lower (Text.strip role))) = true
  · rw [if_pos hrole, if_pos hrole]
    rfl
  rw [if_neg hrole, if_neg hrole, Except.mapError_bind]
  refine bind_congr fun name ↦ ?_
  rw [lookUp_noFaults, lookUpNamespace, lookUp_noFaults]
  by_cases hunknown : dir.tenant t' = none
  · rw [if_pos hunknown, if_pos hunknown]
    rfl
  rw [if_neg hunknown, if_neg hunknown]
  by_cases hwide : name = tenantWide
  · rw [if_pos hwide, if_neg fun h ↦ h.1 hwide]
    rfl
  by_cases hmissing : dir.ns t' name = none
  · rw [if_neg hwide, if_pos hmissing, if_pos ⟨hwide, hmissing⟩]
    rfl
  · rw [if_neg hwide, if_neg hmissing, if_neg fun h ↦ hmissing h.2]
    rfl

theorem revokeRoleTry_noFaults (p t : Str) (ns : Option Str) :
    revokeRoleTry (fun _ ↦ false) p t ns dir = .ok (revokeRole p t ns dir) := by
  rw [revokeRoleTry, revokeRole]
  split_ifs with hempty hnone
  · rfl
  · -- there is no row to be deleted
    have hsame := List.eraseP_of_forall_not fun m hm ↦ List.find?_eq_none.mp hnone m hm
    rw [hsame]
    rfl
  · rfl

/-- **A call without faults** leaves the tables that it leaves in `AdminCall.run`. -/
theorem AdminCall.attempt_noFaults (call : AdminCall) :
    (call.attempt u (fun _ ↦ false) (fun _ ↦ false) now dir).2 = call.run u now dir := by
  cases call with
  | createTenant t displayName owner =>
    rw [AdminCall.attempt, AdminCall.run, createTenantTry, WiseTraceLoom.createTenant,
      registerTenantTry_noFaults]
    cases registerTenant now t displayName dir with
    | error e => rfl
    | ok r =>
      obtain ⟨row, dir₁⟩ := r
      cases owner with
      | none => rfl
      | some p =>
        simp only [Except.mapError, endSession, Bool.false_eq_true, if_false, grantRoleTry_noFaults]
        cases WiseTraceLoom.grantRole u now p row.tenantId "owner".toList none dir₁ <;> rfl
  | createNamespace t name =>
    rw [AdminCall.attempt, AdminCall.run, createNamespaceTry_noFaults]
    cases WiseTraceLoom.createNamespace now t name dir <;> rfl
  | grantRole p t role ns =>
    rw [AdminCall.attempt, AdminCall.run, grantRoleTry_noFaults]
    cases WiseTraceLoom.grantRole u now p t role ns dir <;> rfl
  | revokeRole p t ns =>
    rw [AdminCall.attempt, AdminCall.run, revokeRoleTry_noFaults]
/-! ## When a session commits -/

/-- `_validate_name` accepts the name. -/
def IsName (s : Str) : Prop :=
  Text.strip s ≠ [] ∧ ':' ∉ Text.strip s ∧ Text.strip s ≠ tenantWide

instance (s : Str) : Decidable (IsName s) := inferInstanceAs (Decidable (_ ∧ _ ∧ _))

theorem callName_eq_ok {value field name : Str} :
    callName value field = .ok name ↔ name = Text.strip value ∧ IsName value := by
  have hadmin : callName value field = .ok name ↔ adminName value field = .ok name := by
    rw [callName]
    cases adminName value field <;> simp [Except.mapError]
  rw [hadmin, adminName_eq_ok, validateName_eq_ok, IsName]
  refine and_congr_right fun h ↦ ?_
  rw [h]

theorem execute_eq_ok {f : Faults} {s : AdminStatement} {x : Unit} :
    execute f s = .ok x ↔ f s = false := by
  rw [execute]
  cases f s <;> simp

theorem lookUp_eq_ok {f : Faults} {s : AdminStatement} {bad : Prop} [Decidable bad]
    {e : AdminError} {x : Unit} : lookUp f s bad e = .ok x ↔ f s = false ∧ ¬ bad := by
  rw [lookUp, Except.bind_eq_ok]
  by_cases hbad : bad
  · simp [hbad, throw, throwThe, MonadExceptOf.throw]
  · simp [hbad, execute_eq_ok, pure, Except.pure]

/-- No statement up to the commit fails: these are the statements of the session. -/
def Commits (f : Faults) (statements : List AdminStatement) : Prop :=
  (∀ s ∈ statements, f s = false) ∧ f .commit = false

/-- A tenant can be registered under this name. -/
def Registrable (dir : Directory) (t : Str) : Prop := IsName t ∧ dir.tenant (Text.strip t) = none

/-- A namespace can be added to the tenant. -/
def Addable (dir : Directory) (t name : Str) : Prop :=
  IsName t ∧ IsName name ∧ dir.tenant (Text.strip t) ≠ none ∧
    dir.ns (Text.strip t) (Text.strip name) = none

/-- The role can be granted. -/
def Grantable (u : Unicode) (dir : Directory) (p t role : Str) (ns : Option Str) : Prop :=
  IsName p ∧ IsName t ∧ u.lower (Text.strip role) ∈ roles ∧ (∀ name ∈ ns, IsName name) ∧
    dir.tenant (Text.strip t) ≠ none ∧ ∀ name ∈ ns, dir.ns (Text.strip t) (Text.strip name) ≠ none

theorem registerTenantTry_commits {f : Faults} {t : Str} {displayName : Option Str} :
    (∃ r, registerTenantTry f now t displayName dir = .ok r) ↔
      Registrable dir t ∧ Commits f [.selectTenant] := by
  simp only [registerTenantTry, Except.bind_eq_ok, callName_eq_ok, lookUp_eq_ok, execute_eq_ok]
  constructor
  · rintro ⟨r, t', ⟨rfl, ht⟩, -, ⟨hselect, hnew⟩, -, hcommit, -⟩
    exact ⟨⟨ht, not_not.mp hnew⟩, by simpa using hselect, hcommit⟩
  · rintro ⟨⟨ht, hnew⟩, hselect, hcommit⟩
    exact ⟨_, _, ⟨rfl, ht⟩, (), ⟨hselect _ (by simp), not_not.mpr hnew⟩, (), hcommit, rfl⟩

/-- What the session writes is what `registerTenant` writes. -/
theorem registerTenantTry_eq_ok {f : Faults} {t : Str} {displayName : Option Str}
    {r : Tenant × Directory} (h : registerTenantTry f now t displayName dir = .ok r) :
    registerTenant now t displayName dir = .ok r := by
  simp only [registerTenantTry, Except.bind_eq_ok, callName_eq_ok, lookUp_eq_ok] at h
  obtain ⟨t', ⟨rfl, hnil, hcolon, hwide⟩, -, ⟨-, hnew⟩, -, -, h⟩ := h
  have hname : adminName t "tenant_id".toList = .ok (Text.strip t) :=
    adminName_eq_ok.mpr (validateName_eq_ok.mpr ⟨rfl, hnil, hcolon, hwide⟩)
  obtain rfl := Except.ok.inj h
  rw [registerTenant, hname]
  simp only [bind, Except.bind, if_neg hnew]
  rfl

theorem createNamespaceTry_commits {f : Faults} {t name : Str} :
    (∃ r, createNamespaceTry f now t name dir = .ok r) ↔
      Addable dir t name ∧ Commits f [.selectTenant, .selectNamespace] := by
  simp only [createNamespaceTry, Except.bind_eq_ok, callName_eq_ok, lookUp_eq_ok, execute_eq_ok]
  constructor
  · rintro ⟨r, t', ⟨rfl, ht⟩, name', ⟨rfl, hname⟩, -, ⟨hselect, hknown⟩, -, ⟨hselect', hnew⟩, -,
      hcommit, -⟩
    exact ⟨⟨ht, hname, hknown, not_not.mp hnew⟩, by simp [hselect, hselect'], hcommit⟩
  · rintro ⟨⟨ht, hname, hknown, hnew⟩, hselect, hcommit⟩
    exact ⟨_, _, ⟨rfl, ht⟩, _, ⟨rfl, hname⟩, (), ⟨hselect _ (by simp), hknown⟩, (),
      ⟨hselect _ (by simp), not_not.mpr hnew⟩, (), hcommit, rfl⟩

/-- What the session writes is what `createNamespace` writes. -/
theorem createNamespaceTry_eq_ok {f : Faults} {t name : Str} {r : Namespace × Directory}
    (h : createNamespaceTry f now t name dir = .ok r) :
    createNamespace now t name dir = .ok r := by
  simp only [createNamespaceTry, Except.bind_eq_ok, callName_eq_ok, lookUp_eq_ok] at h
  obtain ⟨t', ⟨rfl, ht⟩, name', ⟨rfl, hname⟩, -, ⟨-, hknown⟩, -, ⟨-, hnew⟩, -, -, h⟩ := h
  have ht' : adminName t "tenant_id".toList = .ok (Text.strip t) :=
    adminName_eq_ok.mpr (validateName_eq_ok.mpr ⟨rfl, ht⟩)
  have hname' : adminName name "namespace".toList = .ok (Text.strip name) :=
    adminName_eq_ok.mpr (validateName_eq_ok.mpr ⟨rfl, hname⟩)
  obtain rfl := Except.ok.inj h
  rw [createNamespace, ht', hname']
  simp only [bind, Except.bind, if_neg hknown, if_neg hnew]
  rfl

/-- The namespace of a membership, and whether it is one of the tenant's. -/
theorem storedNamespace_known {ns : Option Str} {name : Str} :
    (storedNamespace ns).mapError CallError.admin = .ok name ↔
      name = (ns.map Text.strip).getD tenantWide ∧ ∀ n ∈ ns, IsName n := by
  cases ns with
  | none => simp [storedNamespace, Except.mapError, eq_comm]
  | some n =>
    have hname : callName n "namespace".toList = .ok name ↔ name = Text.strip n ∧ IsName n :=
      callName_eq_ok
    rw [callName] at hname
    rw [storedNamespace, hname]
    simp

theorem lookUpNamespace_eq_ok {f : Faults} {t name : Str} {ns : Option Str} {x : Unit}
    (hnames : ∀ n ∈ ns, IsName n) (hname : name = (ns.map Text.strip).getD tenantWide) :
    lookUpNamespace f t name dir = .ok x ↔
      ∀ n ∈ ns, f .selectNamespace = false ∧ dir.ns t (Text.strip n) ≠ none := by
  rw [hname, lookUpNamespace]
  cases ns with
  | none => simp [pure, Except.pure]
  | some n =>
    have hn : Text.strip n ≠ tenantWide := (hnames n rfl).2.2
    simp [hn, lookUp_eq_ok]

/-- What the session of `grant_role` needs to get through, and what it writes. -/
theorem grantRoleTry_eq_ok {f : Faults} {p t role : Str} {ns : Option Str}
    {r : Membership × Directory} : grantRoleTry u f now p t role ns dir = .ok r ↔
      Grantable u dir p t role ns ∧ Commits f (.selectTenant :: .selectMembership ::
        (ns.map fun _ ↦ AdminStatement.selectNamespace).toList) ∧
      r = dir.putMembership now (Text.strip p) (Text.strip t) ((ns.map Text.strip).getD tenantWide)
        (u.lower (Text.strip role)) := by
  rw [grantRoleTry]
  simp only [Except.bind_eq_ok, callName_eq_ok]
  by_cases hrole : roles.contains (u.lower (Text.strip role)) = true
  · have hmem : u.lower (Text.strip role) ∈ roles := List.contains_iff_mem.mp hrole
    simp only [hrole, Bool.not_true, Bool.false_eq_true, if_false, Except.bind_eq_ok,
      storedNamespace_known, lookUp_eq_ok, execute_eq_ok]
    constructor
    · rintro ⟨-, ⟨rfl, hp⟩, -, ⟨rfl, ht⟩, name, ⟨hname, hnames⟩, -, ⟨hselect, hknown⟩, x, hns,
        -, hselect', -, hcommit, h⟩
      have hns' := (lookUpNamespace_eq_ok hnames hname).mp hns
      refine ⟨⟨hp, ht, hmem, hnames, hknown, fun n hn ↦ (hns' n hn).2⟩, ⟨?_, hcommit⟩, ?_⟩
      · cases ns with
        | none => simp [hselect, hselect']
        | some n => simp [hselect, hselect', (hns' n rfl).1]
      · rw [← hname]
        exact (Except.ok.inj h).symm
    · rintro ⟨⟨hp, ht, -, hnames, hknown, hns⟩, ⟨hselect, hcommit⟩, rfl⟩
      refine ⟨_, ⟨rfl, hp⟩, _, ⟨rfl, ht⟩, _, ⟨rfl, hnames⟩, (), ⟨hselect _ (by simp), hknown⟩, (),
        (lookUpNamespace_eq_ok hnames rfl).mpr fun n hn ↦ ⟨?_, hns n hn⟩, (), hselect _ (by simp),
        (), hcommit, rfl⟩
      obtain rfl : ns = some n := hn
      exact hselect _ (by simp)
  · rw [Bool.not_eq_true] at hrole
    have hmem : u.lower (Text.strip role) ∉ roles := fun h ↦ by
      rw [List.contains_iff_mem.mpr h] at hrole
      exact Bool.noConfusion hrole
    simp only [hrole, Bool.not_false, if_true]
    constructor
    · rintro ⟨-, -, -, -, h⟩
      cases h
    · rintro ⟨⟨-, -, h, -⟩, -⟩
      exact absurd h hmem

/-- What the session writes is what `grantRole` writes. -/
theorem grantRole_of_grantRoleTry {f : Faults} {p t role : Str} {ns : Option Str}
    {r : Membership × Directory} (h : grantRoleTry u f now p t role ns dir = .ok r) :
    grantRole u now p t role ns dir = .ok r := by
  obtain ⟨⟨hp, ht, hrole, hnames, hknown, hns⟩, -, rfl⟩ := grantRoleTry_eq_ok.mp h
  have hp' : adminName p "principal_id".toList = .ok (Text.strip p) :=
    adminName_eq_ok.mpr (validateName_eq_ok.mpr ⟨rfl, hp⟩)
  have ht' : adminName t "tenant_id".toList = .ok (Text.strip t) :=
    adminName_eq_ok.mpr (validateName_eq_ok.mpr ⟨rfl, ht⟩)
  have hrole' : roles.contains (u.lower (Text.strip role)) = true := List.contains_iff_mem.mpr hrole
  have hstored : storedNamespace ns = .ok ((ns.map Text.strip).getD tenantWide) := by
    cases ns with
    | none => rfl
    | some n => exact adminName_eq_ok.mpr (validateName_eq_ok.mpr ⟨rfl, hnames n rfl⟩)
  have hfound : ¬ ((ns.map Text.strip).getD tenantWide ≠ tenantWide ∧
      dir.ns (Text.strip t) ((ns.map Text.strip).getD tenantWide) = none) := by
    cases ns with
    | none => simp
    | some n => exact fun h ↦ hns n rfl h.2
  rw [grantRole, hp', ht', hstored]
  simp only [bind, Except.bind, hrole', Bool.not_true, Bool.false_eq_true, if_false, if_neg hknown,
    if_neg hfound]
  rfl

/-! ## What a call leaves -/

theorem endSession_snd {α : Type} {f : Faults} {r : Except CallError (α × Directory)} :
    (endSession f dir r).2 = dir ∨ ∃ row, r = .ok (row, (endSession f dir r).2) := by
  cases r with
  | error e => exact .inl rfl
  | ok r => exact .inr ⟨r.1, rfl⟩

/-- A session raises and leaves its mark if and only if it commits something and the refresh fails
afterwards. -/
theorem endSession_unchanged_iff {α : Type} {f : Faults} {r : Except CallError (α × Directory)} :
    (raised (endSession f dir r).1 ≠ none → (endSession f dir r).2 = dir) ↔
      ¬ ∃ row dir', r = .ok (row, dir') ∧ dir' ≠ dir ∧ f .refresh = true := by
  cases r with
  | error e => simp [endSession]
  | ok r =>
    cases hrefresh : f .refresh with
    | false => simp [endSession, raised, hrefresh]
    | true =>
      obtain ⟨row, dir'⟩ := r
      simp [endSession, raised, hrefresh]

/-- The session is one transaction or none. -/
theorem endSession_reachable {α : Type} {f : Faults} {r : Except CallError (α × Directory)}
    (h : dir.Reachable u) (hstep : ∀ row dir', r = .ok (row, dir') → DirectoryStep u dir dir') :
    (endSession f dir r).2.Reachable u := by
  have hend : (endSession f dir r).2 = dir ∨ ∃ row, r = .ok (row, (endSession f dir r).2) :=
    endSession_snd
  rcases hend with heq | ⟨row, hrow⟩
  · rwa [heq]
  · exact h.tail (hstep row _ hrow)

/-- Granting a role again at the same moment is the only grant that changes nothing. -/
theorem putMembership_eq_self {p t ns role : Str} :
    (dir.putMembership now p t ns role).2 = dir ↔
      ∃ m ∈ dir.membership p t ns, m.role = role ∧ m.updatedAt = (utcnow now).column := by
  rw [Directory.putMembership]
  cases hrow : dir.membership p t ns with
  | none => simp [Directory.ext_iff]
  | some m =>
    have hreplace (row : Membership) := replaceFirst_eq_self (c := row) hrow
    simp only [Directory.ext_iff, hreplace, true_and, Option.mem_some, exists_eq_left']
    constructor
    · intro h
      exact ⟨(congrArg Membership.role h).symm, (congrArg Membership.updatedAt h).symm⟩
    · rintro ⟨hrole, hat⟩
      rw [← hrole, ← hat]

/-- A call commits something and raises afterwards: the refresh of the row fails, or, in
`create_tenant`, anything about the owner. -/
def AdminCall.Strands (u : Unicode) (f f' : Faults) (now : Timestamp) (dir : Directory) :
    AdminCall → Prop
  | .createTenant t _ owner => Registrable dir t ∧ Commits f [.selectTenant] ∧
      (f .refresh = true ∨ ∃ p ∈ owner, ¬ IsName p ∨
        ¬ Commits f' [.selectTenant, .selectMembership, .refresh])
  | .createNamespace t name => Addable dir t name ∧
      Commits f [.selectTenant, .selectNamespace] ∧ f .refresh = true
  | .grantRole p t role ns => Grantable u dir p t role ns ∧
      Commits f (.selectTenant :: .selectMembership ::
        (ns.map fun _ ↦ AdminStatement.selectNamespace).toList) ∧ f .refresh = true ∧
      ∀ m ∈ dir.membership (Text.strip p) (Text.strip t) ((ns.map Text.strip).getD tenantWide),
        m.role ≠ u.lower (Text.strip role) ∨ m.updatedAt ≠ (utcnow now).column
  | .revokeRole _ _ _ => False

section Calls

variable {f f' : Faults}

theorem grantRole_unchanged_iff (p t role : Str) (ns : Option Str) :
    (raised (endSession f dir (grantRoleTry u f now p t role ns dir)).1 ≠ none →
      (endSession f dir (grantRoleTry u f now p t role ns dir)).2 = dir) ↔
        ¬ (AdminCall.grantRole p t role ns).Strands u f f' now dir := by
  rw [endSession_unchanged_iff]
  refine not_congr ⟨?_, ?_⟩
  · rintro ⟨row, dir', hok, hne, hrefresh⟩
    obtain ⟨hgrantable, hcommits, hput⟩ := grantRoleTry_eq_ok.mp hok
    refine ⟨hgrantable, hcommits, hrefresh, fun m hm ↦ ?_⟩
    have hdir' : dir' = _ := congrArg Prod.snd hput
    rw [hdir'] at hne
    have hchange := mt putMembership_eq_self.mpr hne
    by_contra hsame
    rw [not_or, not_not, not_not] at hsame
    exact hchange ⟨m, hm, hsame⟩
  · rintro ⟨hgrantable, hcommits, hrefresh, hchange⟩
    refine ⟨_, _, grantRoleTry_eq_ok.mpr ⟨hgrantable, hcommits, rfl⟩, fun hsame ↦ ?_, hrefresh⟩
    obtain ⟨m, hm, hrole, hat⟩ := putMembership_eq_self.mp hsame
    rcases hchange m hm with h | h
    · exact h hrole
    · exact h hat

theorem createNamespace_unchanged_iff (t name : Str) :
    (raised (endSession f dir (createNamespaceTry f now t name dir)).1 ≠ none →
      (endSession f dir (createNamespaceTry f now t name dir)).2 = dir) ↔
        ¬ (AdminCall.createNamespace t name).Strands u f f' now dir := by
  rw [endSession_unchanged_iff]
  refine not_congr ⟨?_, ?_⟩
  · rintro ⟨row, dir', hok, -, hrefresh⟩
    obtain ⟨hadd, hcommits⟩ := createNamespaceTry_commits.mp ⟨_, hok⟩
    exact ⟨hadd, hcommits, hrefresh⟩
  · rintro ⟨hadd, hcommits, hrefresh⟩
    obtain ⟨⟨row, dir'⟩, hok⟩ := createNamespaceTry_commits.mpr ⟨hadd, hcommits⟩
    refine ⟨row, dir', hok, fun hsame ↦ ?_, hrefresh⟩
    have hrows := createNamespace_eq_ok (createNamespaceTry_eq_ok hok)
    rw [hsame] at hrows
    simpa using congrArg Directory.namespaces hrows

/-- The owner of a new tenant is granted the role unless the name is not accepted or a statement
fails. -/
theorem grantOwner_commits {t p : Str} {displayName : Option Str} {row : Tenant}
    (h : registerTenant now t displayName dir = .ok (row, dir')) :
    (∃ r, grantRoleTry u f' now p row.tenantId "owner".toList none dir' = .ok r) ↔
      IsName p ∧ Commits f' [.selectTenant, .selectMembership] := by
  obtain ⟨hname, htenants, -⟩ := registerTenant_eq_ok h
  have ht : IsName row.tenantId := by
    simp only [registerTenant, Except.bind_eq_ok, adminName_eq_ok] at h
    obtain ⟨t', ht', -⟩ := h
    obtain ⟨rfl, ht'⟩ := validateName_eq_ok.mp ht'
    rw [IsName, hname, Text.strip_strip]
    exact ht'
  have hrole : u.lower (Text.strip "owner".toList) ∈ roles := by
    rw [u.lower_ascii _ (by decide)]
    decide
  have hknown : dir'.tenant (Text.strip row.tenantId) ≠ none := by
    rw [hname, Text.strip_strip, ← hname]
    exact fun hnone ↦ Directory.tenant_eq_none.mp hnone row (by simp [htenants]) rfl
  constructor
  · rintro ⟨r, hr⟩
    obtain ⟨⟨hp, -⟩, hcommits, -⟩ := grantRoleTry_eq_ok.mp hr
    exact ⟨hp, hcommits⟩
  · rintro ⟨hp, hcommits⟩
    refine ⟨_, grantRoleTry_eq_ok.mpr ⟨⟨hp, ht, hrole, ?_, hknown, ?_⟩, hcommits, rfl⟩⟩
    · exact fun n hn ↦ absurd hn (by simp)
    · exact fun n hn ↦ absurd hn (by simp)

theorem commits_refresh (f : Faults) (statements : List AdminStatement) :
    Commits f (statements ++ [.refresh]) ↔ Commits f statements ∧ f .refresh = false := by
  simp only [Commits, List.mem_append, List.mem_singleton, or_imp, forall_and, forall_eq]
  tauto

/-- Once the tenant is registered, `create_tenant` raises because of a refresh or because of the
owner. -/
theorem createTenantTry_raised {t : Str} {displayName : Option Str} {row : Tenant}
    (hrow : registerTenantTry f now t displayName dir = .ok (row, dir')) (owner : Option Str) :
    raised (createTenantTry u f f' now t displayName owner dir).1 = none ↔
      f .refresh = false ∧ ∀ p ∈ owner, IsName p ∧
        Commits f' [.selectTenant, .selectMembership, .refresh] := by
  rw [createTenantTry, hrow, endSession]
  cases hrefresh : f .refresh with
  | true => simp [raised]
  | false =>
    cases owner with
    | none => simp [raised]
    | some p =>
      have howner : (∃ r, grantRoleTry u f' now p row.tenantId "owner".toList none dir' = .ok r) ↔
        _ := grantOwner_commits (registerTenantTry_eq_ok hrow)
      have hlast : Commits f' [.selectTenant, .selectMembership, .refresh] ↔ _ :=
        commits_refresh f' [.selectTenant, .selectMembership]
      simp only [Bool.false_eq_true, if_false, true_and, Option.mem_some, forall_eq', hlast,
        ← and_assoc, ← howner]
      cases grantRoleTry u f' now p row.tenantId "owner".toList none dir' with
      | error e => simp [endSession, raised]
      | ok r => cases hrefresh' : f' .refresh <;> simp [endSession, raised, hrefresh']

/-- The second session of `create_tenant` never brings back the tables from before the first. -/
theorem createTenantTry_tenants {t : Str} {displayName : Option Str} {row : Tenant}
    (hrow : registerTenantTry f now t displayName dir = .ok (row, dir')) (owner : Option Str) :
    (createTenantTry u f f' now t displayName owner dir).2.tenants = dir.tenants ++ [row] := by
  obtain ⟨-, htenants, -⟩ := registerTenant_eq_ok (registerTenantTry_eq_ok hrow)
  rw [createTenantTry, hrow, endSession, ← htenants]
  cases f .refresh with
  | true => rfl
  | false =>
    cases owner with
    | none => rfl
    | some p =>
      simp only [Bool.false_eq_true, if_false]
      cases hgrant : grantRoleTry u f' now p row.tenantId "owner".toList none dir' with
      | error e => rfl
      | ok r =>
        obtain ⟨-, hputs, -⟩ := grantRole_eq_ok (grantRole_of_grantRoleTry hgrant)
        rw [endSession]
        cases f' .refresh with
        | true => exact hputs.tables.1
        | false => exact hputs.tables.1

theorem createTenant_unchanged_iff (t : Str) (displayName owner : Option Str) :
    (raised (createTenantTry u f f' now t displayName owner dir).1 ≠ none →
      (createTenantTry u f f' now t displayName owner dir).2 = dir) ↔
        ¬ (AdminCall.createTenant t displayName owner).Strands u f f' now dir := by
  have hcommits : (∃ r, registerTenantTry f now t displayName dir = .ok r) ↔ _ :=
    registerTenantTry_commits
  rw [AdminCall.Strands, ← and_assoc, ← hcommits]
  cases hrow : registerTenantTry f now t displayName dir with
  | error e =>
    have hsame : (createTenantTry u f f' now t displayName owner dir).2 = dir := by
      rw [createTenantTry, hrow, endSession]
    simp [hsame]
  | ok r =>
    have hraised : raised (createTenantTry u f f' now t displayName owner dir).1 = none ↔ _ :=
      createTenantTry_raised hrow owner
    have hne : (createTenantTry u f f' now t displayName owner dir).2 ≠ dir := fun hsame ↦ by
      have htenants : (createTenantTry u f f' now t displayName owner dir).2.tenants = _ :=
        createTenantTry_tenants hrow owner
      rw [hsame] at htenants
      simp at htenants
    have hunchanged : (raised (createTenantTry u f f' now t displayName owner dir).1 ≠ none →
        (createTenantTry u f f' now t displayName owner dir).2 = dir) ↔
        raised (createTenantTry u f f' now t displayName owner dir).1 = none :=
      ⟨fun h ↦ by_contra fun hr ↦ hne (h hr), fun h hr ↦ absurd h hr⟩
    rw [hunchanged, hraised]
    simp

/-- **A call is some of the transactions of the host**, also if it raises. -/
theorem AdminCall.attempt_reachable (h : dir.Reachable u) (call : AdminCall) :
    (call.attempt u f f' now dir).2.Reachable u := by
  cases call with
  | createTenant t displayName owner =>
    rw [AdminCall.attempt, createTenantTry]
    have hfirst : (endSession f dir (registerTenantTry f now t displayName dir)).2.Reachable u :=
      endSession_reachable h fun row dir' hrow ↦ .registerTenant (registerTenantTry_eq_ok hrow)
    split
    · rename_i e dir₁ heq
      rwa [heq] at hfirst
    · rename_i row dir₁ heq
      rw [heq] at hfirst
      cases owner with
      | none => exact hfirst
      | some p =>
        have hsecond : (endSession f' dir₁
            (grantRoleTry u f' now p row.tenantId "owner".toList none dir₁)).2.Reachable u :=
          endSession_reachable hfirst fun m dir' hm ↦ .grantRole (grantRole_of_grantRoleTry hm)
        simp only
        split
        · rename_i e dir₂ heq₂
          rwa [heq₂] at hsecond
        · rename_i m dir₂ heq₂
          rwa [heq₂] at hsecond
  | createNamespace t name =>
    exact endSession_reachable h fun row dir' hrow ↦
      .createNamespace (createNamespaceTry_eq_ok hrow)
  | grantRole p t role ns =>
    exact endSession_reachable h fun m dir' hm ↦ .grantRole (grantRole_of_grantRoleTry hm)
  | revokeRole p t ns =>
    have hrevoke (dir' : Directory) (hdir' : revokeRoleTry f p t ns dir = .ok dir') :
        dir'.Reachable u := by
      rw [revokeRoleTry] at hdir'
      split_ifs at hdir' with hempty hnone
      · exact Except.ok.inj hdir' ▸ h
      · obtain ⟨-, -, hdir'⟩ := Except.bind_eq_ok.mp hdir'
        exact Except.ok.inj hdir' ▸ h
      · simp only [Except.bind_eq_ok] at hdir'
        obtain ⟨-, -, -, -, hdir'⟩ := hdir'
        have hstep : DirectoryStep u dir (WiseTraceLoom.revokeRole p t ns dir) := .revokeRole p t ns
        rw [WiseTraceLoom.revokeRole, if_neg hempty] at hstep
        exact Except.ok.inj hdir' ▸ h.tail hstep
    rw [AdminCall.attempt]
    split
    · exact h
    · rename_i dir' heq
      exact hrevoke dir' heq

/-- **When a call that raises leaves the tables as they were**, in every reachable directory, all
of which are consistent: unless it strands, that is, unless something raises after a commit. -/
theorem tenancy_atomic_iff (h : dir.Reachable u) : dir.Consistent ∧
    ∀ (f f' : Faults) (now : Timestamp) (call : AdminCall),
      (call.attempt u f f' now dir).2.Reachable u ∧
        (((call.attempt u f f' now dir).1 ≠ none → (call.attempt u f f' now dir).2 = dir) ↔
          ¬ call.Strands u f f' now dir) := by
  refine ⟨h.consistent, fun f f' now call ↦ ⟨call.attempt_reachable h, ?_⟩⟩
  cases call with
  | createTenant t displayName owner => exact createTenant_unchanged_iff t displayName owner
  | createNamespace t name => exact createNamespace_unchanged_iff t name
  | grantRole p t role ns => exact grantRole_unchanged_iff p t role ns
  | revokeRole p t ns =>
    refine ⟨fun _ hstrands ↦ hstrands, fun _ hraised ↦ ?_⟩
    rw [AdminCall.attempt] at hraised ⊢
    split at hraised
    · rfl
    · exact absurd rfl hraised

/-- The owner of `acme` is called `a:b`: the call raises, and the tenant stays. -/
theorem tenancy_acme : Directory.empty.Consistent ∧
    (((AdminCall.createTenant "acme".toList none (some "a:b".toList)).attempt .ascii
        (fun _ ↦ false) (fun _ ↦ false) noon .empty).1 ≠ none →
      ((AdminCall.createTenant "acme".toList none (some "a:b".toList)).attempt .ascii
        (fun _ ↦ false) (fun _ ↦ false) noon .empty).2 = .empty ↔
      ¬ (AdminCall.createTenant "acme".toList none (some "a:b".toList)).Strands .ascii
        (fun _ ↦ false) (fun _ ↦ false) noon .empty) :=
  have hempty : Directory.empty.Reachable .ascii := .refl
  have hatomic := tenancy_atomic_iff hempty
  ⟨hatomic.1, (hatomic.2 (fun _ ↦ false) (fun _ ↦ false) noon _).2⟩

/-- No statement fails, and a call that raises leaves a tenant behind. -/
theorem tenant_stranded : ¬ ∀ (u : Unicode) (dir : Directory) (now : Timestamp) (call : AdminCall),
    dir.Reachable u →
      (call.attempt u (fun _ ↦ false) (fun _ ↦ false) now dir).1 ≠ none →
        (call.attempt u (fun _ ↦ false) (fun _ ↦ false) now dir).2 = dir := by
  intro hall
  have hcall := hall .ascii .empty noon
    (.createTenant "acme".toList none (some "a:b".toList)) .refl (by decide)
  have htenants := congrArg Directory.tenants hcall
  exact absurd htenants (by decide)

end Calls

end WiseTraceLoom
