import Mathlib.Logic.Relation
import WiseTraceLoom.Lib.Regex
import WiseTraceLoom.Storage.Config
import WiseTraceLoom.Tenancy

/-!
# The directory of tenants

The host registers tenants and namespaces and grants roles.  `Directory` is the three tables these
calls write, and a reachable directory is what any calls, in any order, have made of empty tables.

Memberships are written by `grant_role` alone, which checks the role, the tenant and the namespace.
So in a reachable directory a principal with any role may view (`Directory.Reachable.access_iff`):
`resolve_role` and `assert_viewer_access` never disagree.
-/

set_option autoImplicit false

namespace WiseTraceLoom

/-! ## The tables -/

/-- A registered tenant. -/
structure Tenant where
  /-- The primary key. -/
  id : ℤ
  /-- The tenant. -/
  tenantId : Str
  /-- The name it is shown by. -/
  displayName : Option Str
  /-- When it was registered. -/
  createdAt : Datetime
  deriving DecidableEq

/-- A namespace of a tenant. -/
structure Namespace where
  /-- The primary key. -/
  id : ℤ
  /-- The tenant. -/
  tenantId : Str
  /-- The name. -/
  name : Str
  /-- When it was added. -/
  createdAt : Datetime
  deriving DecidableEq

/-- The tables. -/
structure Directory where
  /-- The tenants. -/
  tenants : List Tenant
  /-- Their namespaces. -/
  namespaces : List Namespace
  /-- The roles of principals on them. -/
  memberships : List Membership

/-- The tables when they have just been created. -/
def Directory.empty : Directory := ⟨[], [], []⟩

/-- The row of a tenant. -/
def Directory.tenant (dir : Directory) (tenantId : Str) : Option Tenant :=
  dir.tenants.find? fun t ↦ t.tenantId = tenantId

/-- The row of a namespace. -/
def Directory.ns (dir : Directory) (tenantId name : Str) : Option Namespace :=
  dir.namespaces.find? fun n ↦ n.tenantId = tenantId ∧ n.name = name

/-- Is this the membership of the principal on the namespace of the tenant? -/
def Membership.isFor (principalId tenantId ns : Str) (m : Membership) : Bool :=
  m.principalId = principalId ∧ m.tenantId = tenantId ∧ m.ns = ns

/-- The row of a membership. -/
def Directory.membership (dir : Directory) (principalId tenantId ns : Str) : Option Membership :=
  dir.memberships.find? (Membership.isFor principalId tenantId ns)

/-! ## The calls of the host -/

/-- What they raise a `TenancyError` for. -/
inductive AdminError where
  | tenancy (e : TenancyError)
  | tenantExists (tenantId : Str)
  | unknownTenant (tenantId : Str)
  | namespaceExists (name tenantId : Str)
  | unknownNamespace (name tenantId : Str)
  | unknownRole (role : Str)
  deriving DecidableEq

/-- The text of the `TenancyError`. -/
def AdminError.message : AdminError → Str
  | .tenancy e => e.message
  | .tenantExists tenantId => "tenant ".toList ++ Text.repr tenantId ++ " already exists".toList
  | .unknownTenant tenantId => "unknown tenant ".toList ++ Text.repr tenantId
  | .namespaceExists name tenantId => "namespace ".toList ++ Text.repr name ++
      " already exists for tenant ".toList ++ Text.repr tenantId
  | .unknownNamespace name tenantId => "unknown namespace ".toList ++ Text.repr name ++
      " for tenant ".toList ++ Text.repr tenantId
  | .unknownRole role =>
      "role must be one of ['admin', 'owner', 'viewer'], not ".toList ++ Text.repr role

/-- `_validate_name`, for these calls. -/
def adminName (value field : Str) : Except AdminError Str :=
  (validateName value field).mapError .tenancy

/-- The namespace a membership is stored with, `*` if none is given. -/
def storedNamespace (ns : Option Str) : Except AdminError Str :=
  match ns with
  | none => .ok tenantWide
  | some name => adminName name "namespace".toList

/-- A membership written: a new row, or a new role in the row there is. -/
def Directory.putMembership (dir : Directory) (now : Timestamp)
    (principalId tenantId ns role : Str) : Membership × Directory :=
  match dir.membership principalId tenantId ns with
  | none =>
    let row : Membership :=
      ⟨nextId (dir.memberships.map Membership.id), principalId, tenantId, ns, role,
        (utcnow now).column⟩
    (row, { dir with memberships := dir.memberships ++ [row] })
  | some row =>
    let row := { row with role := role, updatedAt := (utcnow now).column }
    (row, { dir with
      memberships := replaceFirst (Membership.isFor principalId tenantId ns) row dir.memberships })

/-- `grant_role`. -/
def grantRole (u : Unicode) (now : Timestamp) (principalId tenantId role : Str) (ns : Option Str)
    (dir : Directory) : Except AdminError (Membership × Directory) := do
  let principalId ← adminName principalId "principal_id".toList
  let tenantId ← adminName tenantId "tenant_id".toList
  let role := u.lower (Text.strip role)
  if !roles.contains role then throw (.unknownRole role) else
  let ns ← storedNamespace ns
  if dir.tenant tenantId = none then throw (.unknownTenant tenantId)
  else if ns ≠ tenantWide ∧ dir.ns tenantId ns = none then throw (.unknownNamespace ns tenantId)
  else pure (dir.putMembership now principalId tenantId ns role)

/-- `revoke_role`. -/
def revokeRole (principalId tenantId : Str) (ns : Option Str) (dir : Directory) : Directory :=
  let principalId := Text.strip principalId
  let tenantId := Text.strip tenantId
  let ns := (ns.map Text.strip).getD tenantWide
  if principalId = [] ∨ tenantId = [] ∨ ns = [] then dir
  else { dir with memberships := dir.memberships.eraseP (Membership.isFor principalId tenantId ns) }

/-- The first transaction of `create_tenant`. -/
def registerTenant (now : Timestamp) (tenantId : Str) (displayName : Option Str)
    (dir : Directory) : Except AdminError (Tenant × Directory) := do
  let tenantId ← adminName tenantId "tenant_id".toList
  if dir.tenant tenantId ≠ none then throw (.tenantExists tenantId) else
  let row : Tenant :=
    ⟨nextId (dir.tenants.map Tenant.id), tenantId, displayName, (utcnow now).column⟩
  let ns : Namespace :=
    ⟨nextId (dir.namespaces.map Namespace.id), tenantId, defaultNamespace, (utcnow now).column⟩
  pure (row,
    { dir with tenants := dir.tenants ++ [row], namespaces := dir.namespaces ++ [ns] })

/-- `create_tenant`.  The tenant stays if its owner cannot be granted the role. -/
def createTenant (u : Unicode) (now : Timestamp) (tenantId : Str)
    (displayName ownerPrincipalId : Option Str) (dir : Directory) :
    Except AdminError Tenant × Directory :=
  match registerTenant now tenantId displayName dir with
  | .error e => (.error e, dir)
  | .ok (row, dir) =>
    match ownerPrincipalId with
    | none => (.ok row, dir)
    | some owner =>
      match grantRole u now owner row.tenantId "owner".toList none dir with
      | .error e => (.error e, dir)
      | .ok (_, dir) => (.ok row, dir)

/-- `create_namespace`. -/
def createNamespace (now : Timestamp) (tenantId name : Str) (dir : Directory) :
    Except AdminError (Namespace × Directory) := do
  let tenantId ← adminName tenantId "tenant_id".toList
  let name ← adminName name "namespace".toList
  if dir.tenant tenantId = none then throw (.unknownTenant tenantId) else
  if dir.ns tenantId name ≠ none then throw (.namespaceExists name tenantId) else
  let row : Namespace :=
    ⟨nextId (dir.namespaces.map Namespace.id), tenantId, name, (utcnow now).column⟩
  pure (row, { dir with namespaces := dir.namespaces ++ [row] })

/-! ## What the calls write -/

variable {u : Unicode} {now : Timestamp} {dir dir' : Directory}

theorem adminName_eq_ok {value field name : Str} :
    adminName value field = .ok name ↔ validateName value field = .ok name := by
  rw [adminName]
  cases validateName value field <;> simp [Except.mapError]

theorem Directory.exists_of_tenant {t : Str} (h : dir.tenant t ≠ none) :
    ∃ row ∈ dir.tenants, row.tenantId = t := by
  obtain ⟨row, hrow⟩ := Option.ne_none_iff_exists'.mp h
  exact ⟨row, List.mem_of_find?_eq_some hrow, by simpa using List.find?_some hrow⟩

theorem Directory.exists_of_ns {t name : Str} (h : dir.ns t name ≠ none) :
    ∃ row ∈ dir.namespaces, row.tenantId = t ∧ row.name = name := by
  obtain ⟨row, hrow⟩ := Option.ne_none_iff_exists'.mp h
  exact ⟨row, List.mem_of_find?_eq_some hrow, by simpa using List.find?_some hrow⟩

/-- What identifies a membership. -/
def Membership.key (m : Membership) : Str × Str × Str := (m.principalId, m.tenantId, m.ns)

theorem Membership.isFor_iff {p t ns : Str} {m : Membership} :
    m.isFor p t ns = true ↔ m.key = (p, t, ns) := by
  simp [isFor, key]

/-- A membership that `grant_role` may write: the role is one of the three, and tenant and namespace
are registered. -/
structure Directory.Grants (dir : Directory) (m : Membership) : Prop where
  /-- The role. -/
  role : m.role ∈ roles
  /-- The tenant. -/
  tenant : ∃ t ∈ dir.tenants, t.tenantId = m.tenantId
  /-- The namespace. -/
  ns : m.ns = tenantWide ∨ ∃ n ∈ dir.namespaces, n.tenantId = m.tenantId ∧ n.name = m.ns

/-- `m` written to the directory, as a new row or over the row there was. -/
def Directory.Puts (dir : Directory) (m : Membership) (dir' : Directory) : Prop :=
  ((∀ row ∈ dir.memberships, row.key ≠ m.key) ∧
      dir' = { dir with memberships := dir.memberships ++ [m] }) ∨
    ((∃ row ∈ dir.memberships, row.key = m.key) ∧ dir' = { dir with
      memberships := replaceFirst (fun row ↦ row.key = m.key) m dir.memberships })

theorem Directory.puts_putMembership (dir : Directory) (now : Timestamp) (p t ns role : Str) :
    (dir.putMembership now p t ns role).1.key = (p, t, ns) ∧
      (dir.putMembership now p t ns role).1.role = role ∧
      dir.Puts (dir.putMembership now p t ns role).1 (dir.putMembership now p t ns role).2 := by
  rw [putMembership]
  cases hrow : dir.membership p t ns with
  | none =>
    refine ⟨rfl, rfl, Or.inl ⟨fun row hmem hkey ↦ ?_, rfl⟩⟩
    have hnot := List.find?_eq_none.mp hrow row hmem
    exact hnot (Membership.isFor_iff.mpr hkey)
  | some row =>
    have hkey : row.key = (p, t, ns) := Membership.isFor_iff.mp (List.find?_some hrow)
    refine ⟨hkey, rfl, Or.inr ⟨⟨row, List.mem_of_find?_eq_some hrow, rfl⟩, ?_⟩⟩
    have hpred : Membership.isFor p t ns = fun row' ↦ decide (row'.key = row.key) := by
      funext row'
      rw [Bool.eq_iff_iff, Membership.isFor_iff, decide_eq_true_eq, hkey]
    simp only [hpred]
    rfl

/-- **What `grant_role` writes**: a membership it may write, under its key. -/
theorem grantRole_eq_ok {p t role : Str} {ns : Option Str} {m : Membership}
    (h : grantRole u now p t role ns dir = .ok (m, dir')) :
    dir.Grants m ∧ dir.Puts m dir' ∧ validateName p "principal_id".toList = .ok m.principalId ∧
      validateName t "tenant_id".toList = .ok m.tenantId ∧
      m.role = u.lower (Text.strip role) ∧ storedNamespace ns = .ok m.ns := by
  simp only [grantRole, Except.bind_eq_ok, adminName_eq_ok] at h
  obtain ⟨p', hp, t', ht, h⟩ := h
  have hrole : roles.contains (u.lower (Text.strip role)) = true := by
    by_contra hrole
    rw [Bool.not_eq_true] at hrole
    rw [hrole, Bool.not_false, if_pos rfl] at h
    cases h
  rw [hrole, Bool.not_true, if_neg Bool.false_ne_true] at h
  obtain ⟨ns', hns, h⟩ := Except.bind_eq_ok.mp h
  split_ifs at h with htenant hknown
  obtain ⟨hkey, hm, hputs⟩ := dir.puts_putMembership now p' t' ns' (u.lower (Text.strip role))
  rw [Except.ok.inj h] at hkey hm hputs
  obtain ⟨rfl, rfl, rfl⟩ : m.principalId = p' ∧ m.tenantId = t' ∧ m.ns = ns' := by
    simpa [Membership.key] using hkey
  refine ⟨⟨?_, Directory.exists_of_tenant htenant, ?_⟩, hputs, hp, ht, hm, hns⟩
  · rw [hm]
    exact List.contains_iff_mem.mp hrole
  · by_cases hwide : m.ns = tenantWide
    · exact Or.inl hwide
    · exact Or.inr (Directory.exists_of_ns fun hnone ↦ hknown ⟨hwide, hnone⟩)

/-- What `create_tenant` writes first: a tenant there was not, with its default namespace. -/
theorem registerTenant_eq_ok {t : Str} {displayName : Option Str} {row : Tenant}
    (h : registerTenant now t displayName dir = .ok (row, dir')) :
    row.tenantId = Text.strip t ∧ dir'.tenants = dir.tenants ++ [row] ∧
      dir'.memberships = dir.memberships ∧
      ∃ n : Namespace, n.tenantId = row.tenantId ∧ n.name = defaultNamespace ∧
        dir'.namespaces = dir.namespaces ++ [n] := by
  simp only [registerTenant, Except.bind_eq_ok, adminName_eq_ok] at h
  obtain ⟨t', ht, h⟩ := h
  split_ifs at h
  obtain ⟨rfl, rfl⟩ := Prod.mk.inj (Except.ok.inj h)
  exact ⟨(validateName_eq_ok.mp ht).1, rfl, rfl, _, rfl, rfl, rfl⟩

/-- What `create_namespace` writes: a namespace. -/
theorem createNamespace_eq_ok {t name : Str} {row : Namespace}
    (h : createNamespace now t name dir = .ok (row, dir')) :
    dir' = { dir with namespaces := dir.namespaces ++ [row] } := by
  simp only [createNamespace, Except.bind_eq_ok, adminName_eq_ok] at h
  obtain ⟨t', ht, name', hname, h⟩ := h
  split_ifs at h
  obtain ⟨rfl, rfl⟩ := Prod.mk.inj (Except.ok.inj h)
  rfl

/-! ## Reachable directories -/

/-- One transaction of the host. -/
inductive DirectoryStep (u : Unicode) : Directory → Directory → Prop
  | registerTenant {dir dir' : Directory} {now : Timestamp} {t : Str} {displayName : Option Str}
      {row : Tenant} (h : registerTenant now t displayName dir = .ok (row, dir')) :
      DirectoryStep u dir dir'
  | createNamespace {dir dir' : Directory} {now : Timestamp} {t name : Str} {row : Namespace}
      (h : createNamespace now t name dir = .ok (row, dir')) : DirectoryStep u dir dir'
  | grantRole {dir dir' : Directory} {now : Timestamp} {p t role : Str} {ns : Option Str}
      {m : Membership} (h : grantRole u now p t role ns dir = .ok (m, dir')) :
      DirectoryStep u dir dir'
  | revokeRole {dir : Directory} (p t : Str) (ns : Option Str) :
      DirectoryStep u dir (revokeRole p t ns dir)

/-- The directories that can be made of empty tables. -/
def Directory.Reachable (u : Unicode) (dir : Directory) : Prop :=
  Relation.ReflTransGen (DirectoryStep u) .empty dir

/-- `create_tenant` is one transaction or two. -/
theorem createTenant_reachable {t : Str} {displayName owner : Option Str}
    (h : dir.Reachable u) : (createTenant u now t displayName owner dir).2.Reachable u := by
  rw [createTenant]
  cases hrow : registerTenant now t displayName dir with
  | error e => exact h
  | ok result =>
    obtain ⟨row, dir₁⟩ := result
    have h₁ : dir₁.Reachable u := h.tail (.registerTenant hrow)
    cases owner with
    | none => exact h₁
    | some p =>
      simp only
      cases hgrant : grantRole u now p row.tenantId "owner".toList none dir₁ with
      | error e => exact h₁
      | ok result => exact h₁.tail (.grantRole hgrant)

/-- What holds of every reachable directory. -/
structure Directory.Ok (dir : Directory) : Prop where
  /-- All memberships are ones that `grant_role` may write. -/
  grants : ∀ m ∈ dir.memberships, dir.Grants m
  /-- A principal has one role on a namespace. -/
  unique : (dir.memberships.map Membership.key).Nodup

/-- Tenants and namespaces stay. -/
theorem Directory.Grants.mono {m : Membership} (h : dir.Grants m)
    (htenants : dir.tenants ⊆ dir'.tenants) (hnamespaces : dir.namespaces ⊆ dir'.namespaces) :
    dir'.Grants m where
  role := h.role
  tenant := h.tenant.imp fun _ ht ↦ ⟨htenants ht.1, ht.2⟩
  ns := h.ns.imp_right fun hn ↦ hn.imp fun _ hn ↦ ⟨hnamespaces hn.1, hn.2⟩

/-- **A membership is written**, and nothing else. -/
theorem Directory.Ok.put {m : Membership} (h : dir.Ok) (hm : dir.Grants m)
    (hputs : dir.Puts m dir') : dir'.Ok := by
  rcases hputs with ⟨hnew, rfl⟩ | ⟨-, rfl⟩
  · refine ⟨fun row hrow ↦ ?_, ?_⟩
    · rcases List.mem_append.mp hrow with hrow | hrow
      · exact (h.grants row hrow).mono (List.Subset.refl _) (List.Subset.refl _)
      · rw [List.mem_singleton.mp hrow]
        exact hm.mono (List.Subset.refl _) (List.Subset.refl _)
    · exact nodup_map_concat h.unique hnew
  · refine ⟨fun row hrow ↦ ?_, ?_⟩
    · rcases mem_replaceFirst hrow with rfl | hrow
      · exact hm.mono (List.Subset.refl _) (List.Subset.refl _)
      · exact (h.grants row hrow).mono (List.Subset.refl _) (List.Subset.refl _)
    · rw [map_replaceFirst fun row hrow ↦ of_decide_eq_true hrow]
      exact h.unique

/-- **Every transaction keeps it.** -/
theorem Directory.Ok.step (h : dir.Ok) (hstep : DirectoryStep u dir dir') : dir'.Ok := by
  cases hstep with
  | registerTenant hrow =>
    obtain ⟨-, htenants, hmemberships, n, -, -, hnamespaces⟩ := registerTenant_eq_ok hrow
    constructor
    · rw [hmemberships]
      intro m hm
      refine (h.grants m hm).mono ?_ ?_
      · exact htenants ▸ List.subset_append_left _ _
      · exact hnamespaces ▸ List.subset_append_left _ _
    · rw [hmemberships]
      exact h.unique
  | createNamespace hrow =>
    obtain rfl := createNamespace_eq_ok hrow
    exact ⟨fun m hm ↦ (h.grants m hm).mono (List.Subset.refl _) (List.subset_append_left _ _),
      h.unique⟩
  | grantRole hm =>
    obtain ⟨hgrants, hputs, -⟩ := grantRole_eq_ok hm
    exact h.put hgrants hputs
  | revokeRole p t ns =>
    rw [revokeRole]
    split_ifs
    · exact h
    · have hsub := List.eraseP_sublist (p := Membership.isFor (Text.strip p) (Text.strip t)
        ((ns.map Text.strip).getD tenantWide)) (l := dir.memberships)
      refine ⟨fun m hm ↦ ?_, h.unique.sublist (hsub.map _)⟩
      exact (h.grants m (hsub.subset hm)).mono (List.Subset.refl _) (List.Subset.refl _)

theorem Directory.Reachable.ok (h : dir.Reachable u) : dir.Ok := by
  induction h with
  | refl => exact ⟨fun m hm ↦ absurd hm List.not_mem_nil, List.nodup_nil⟩
  | tail _ hstep ih => exact ih.step hstep

theorem Directory.Puts.mem {m : Membership} (h : dir.Puts m dir') : m ∈ dir'.memberships := by
  rcases h with ⟨-, rfl⟩ | ⟨⟨row, hrow, hkey⟩, rfl⟩
  · exact List.mem_append_right _ (List.mem_singleton_self m)
  · exact mem_replaceFirst_self m ⟨row, hrow, decide_eq_true hkey⟩

/-- **A grant on the whole tenant covers every namespace.** -/
theorem resolveRole_of_grantRole {p t role : Str} {m : Membership} {ns : Option Str}
    (h : grantRole u now p t role none dir = .ok (m, dir'))
    (hns : Text.strip (ns.getD defaultNamespace) ≠ []) :
    resolveRole dir'.memberships p t ns ≠ none := by
  obtain ⟨-, hputs, hp, ht, -, hwide⟩ := grantRole_eq_ok h
  obtain ⟨hp, hpne, -⟩ := validateName_eq_ok.mp hp
  obtain ⟨ht, htne, -⟩ := validateName_eq_ok.mp ht
  exact resolveRole_ne_none (hp ▸ hpne) (ht ▸ htne) hns hputs.mem
    ⟨hp, ht, Or.inr (Except.ok.inj hwide).symm⟩

/-- **Who has a role may view.**  In a reachable directory the gate lets a principal through exactly
if a role is resolved for it. -/
theorem Directory.Reachable.access_iff (h : dir.Reachable u) (p t : Str) (ns : Option Str) :
    assertViewerAccess dir.memberships p t ns = .ok () ↔
      resolveRole dir.memberships p t ns ≠ none := by
  rw [assertViewerAccess]
  cases hrole : resolveRole dir.memberships p t ns with
  | none => simp
  | some role =>
    obtain ⟨m, hm, rfl, -⟩ := exists_of_resolveRole hrole
    have hmem : roles.contains m.role = true :=
      List.contains_iff_mem.mpr (h.ok.grants m hm).role
    simp only [hmem, if_true, Ne, reduceCtorEq, not_false_eq_true]

/-- Everybody can be granted a role on a whole tenant that is registered. -/
theorem grantRole_wide {p p' t t' role : Str} (hp : validateName p "principal_id".toList = .ok p')
    (ht : validateName t "tenant_id".toList = .ok t') (hrole : u.lower (Text.strip role) ∈ roles)
    (htenant : dir.tenant t' ≠ none) : grantRole u now p t role none dir =
      .ok (dir.putMembership now p' t' tenantWide (u.lower (Text.strip role))) := by
  rw [grantRole, adminName_eq_ok.mpr hp, adminName_eq_ok.mpr ht]
  simp [bind, Except.bind, hrole, storedNamespace, htenant, pure, Except.pure]

/-- Every tenant can have a viewer. -/
theorem exists_viewer (u : Unicode) {t name : Str} {ns : Option Str}
    (ht : validateName t "tenant_id".toList = .ok name)
    (hns : Text.strip (ns.getD defaultNamespace) ≠ []) :
    ∃ dir p, Directory.Reachable u dir ∧ resolveRole dir.memberships p t ns ≠ none := by
  obtain ⟨tenant, dir, hdir, hknown⟩ : ∃ tenant dir,
      registerTenant noon t none .empty = .ok (tenant, dir) ∧ dir.tenant name ≠ none := by
    refine ⟨⟨1, name, none, (utcnow noon).column⟩, ⟨[⟨1, name, none, (utcnow noon).column⟩],
      [⟨1, name, defaultNamespace, (utcnow noon).column⟩], []⟩, ?_, by simp [Directory.tenant]⟩
    rw [registerTenant, adminName_eq_ok.mpr ht]
    rfl
  have hrole : u.lower (Text.strip "viewer".toList) ∈ roles := by
    rw [u.lower_ascii _ (by decide)]
    decide
  have hann : validateName "ann".toList "principal_id".toList = .ok "ann".toList := by decide
  have hgrant : grantRole u noon "ann".toList t "viewer".toList none dir = .ok _ :=
    grantRole_wide hann ht hrole hknown
  exact ⟨_, "ann".toList, (Relation.ReflTransGen.single (.registerTenant hdir)).tail
    (.grantRole hgrant), resolveRole_of_grantRole hgrant hns⟩

end WiseTraceLoom
