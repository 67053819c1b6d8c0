import Mathlib.Data.List.MinMax
import WiseTraceLoom.Storage.Read

/-!
# Tenants, namespaces and viewers

The data of a namespace of a tenant is on a stream of its own, called after both of them, and a
viewer reads it through `queryLatest`, which asks the membership table first.

The name of the stream determines the namespace and the tenant (`isolatedStreamId_inj`), as names
must not contain the separator.
-/

set_option autoImplicit false

namespace WiseTraceLoom

/-! ## Names -/

/-- `DEFAULT_NAMESPACE`. -/
def defaultNamespace : Str := "default".toList

/-- `TENANT_WIDE`. -/
def tenantWide : Str := "*".toList

/-- What a `TenancyError` is raised for. -/
inductive TenancyError where
  | empty (field : Str)
  | separator (field : Str)
  | reserved (field : Str)
  | emptyBase
  deriving DecidableEq

/-- The text of a `TenancyError`. -/
def TenancyError.message : TenancyError → Str
  | .empty field => field ++ " must be non-empty".toList
  | .separator field => field ++ " must not contain ':' (used as the stream-id separator)".toList
  | .reserved field => field ++ ' ' :: Text.repr tenantWide ++
      " is reserved for tenant-wide membership".toList
  | .emptyBase => "stream base must be non-empty".toList

/-- `_validate_name`. -/
def validateName (value field : Str) : Except TenancyError Str :=
  let name := Text.strip value
  if name = [] then .error (.empty field)
  else if ':' ∈ name then .error (.separator field)
  else if name = tenantWide then .error (.reserved field)
  else .ok name

/-- The namespace of a stream, `default` if none is given. -/
def validateNamespace (ns : Option Str) : Except TenancyError Str :=
  match ns with
  | none => .ok defaultNamespace
  | some name => validateName name "namespace".toList

/-- `isolated_stream_id`. -/
def isolatedStreamId (base tenantId : Str) (ns : Option Str) : Except TenancyError Str := do
  let tenantId ← validateName tenantId "tenant_id".toList
  let ns ← validateNamespace ns
  let base := Text.strip base
  if base = [] then throw .emptyBase else pure (base ++ ':' :: tenantId ++ ':' :: ns)

theorem validateName_eq_ok {value field name : Str} :
    validateName value field = .ok name ↔
      name = Text.strip value ∧ name ≠ [] ∧ ':' ∉ name ∧ name ≠ tenantWide := by
  rw [validateName]
  constructor
  · intro h
    split_ifs at h with hnil hcolon hwide
    obtain rfl := Except.ok.inj h
    exact ⟨rfl, hnil, hcolon, hwide⟩
  · rintro ⟨rfl, hnil, hcolon, hwide⟩
    simp only [if_neg hnil, if_neg hcolon, if_neg hwide]

/-- No namespace is the same as `default`. -/
theorem validateNamespace_eq (ns : Option Str) :
    validateNamespace ns = validateName (ns.getD defaultNamespace) "namespace".toList := by
  cases ns with
  | none => decide
  | some name => rfl

theorem validateNamespace_eq_ok {ns : Option Str} {name : Str}
    (h : validateNamespace ns = .ok name) :
    name = Text.strip (ns.getD defaultNamespace) ∧ ':' ∉ name := by
  rw [validateNamespace_eq] at h
  obtain ⟨hname, -, hcolon, -⟩ := validateName_eq_ok.mp h
  exact ⟨hname, hcolon⟩

/-- Two steps return if the first does and then the second. -/
theorem Except.bind_eq_ok {ε α β : Type} {x : Except ε α} {f : α → Except ε β} {b : β} :
    x >>= f = .ok b ↔ ∃ a, x = .ok a ∧ f a = .ok b := by
  cases x with
  | error e => simp [bind, Except.bind]
  | ok a => simp [bind, Except.bind]

theorem isolatedStreamId_eq_ok {base tenantId s : Str} {ns : Option Str} :
    isolatedStreamId base tenantId ns = .ok s ↔ ∃ t n,
      validateName tenantId "tenant_id".toList = .ok t ∧ validateNamespace ns = .ok n ∧
      Text.strip base ≠ [] ∧ s = Text.strip base ++ ':' :: t ++ ':' :: n := by
  rw [isolatedStreamId, Except.bind_eq_ok]
  simp only [Except.bind_eq_ok]
  constructor
  · rintro ⟨t, ht, n, hn, h⟩
    split_ifs at h with hbase
    exact ⟨t, n, ht, hn, hbase, (Except.ok.inj h).symm⟩
  · rintro ⟨t, n, ht, hn, hbase, rfl⟩
    exact ⟨t, ht, n, hn, if_neg hbase⟩

/-- The base, the tenant and the namespace can be told from the stream, up to white space around
them: the last two of them contain no separator, the base may. -/
theorem isolatedStreamId_inj {b₁ b₂ t₁ t₂ s : Str} {n₁ n₂ : Option Str}
    (h₁ : isolatedStreamId b₁ t₁ n₁ = .ok s) (h₂ : isolatedStreamId b₂ t₂ n₂ = .ok s) :
    Text.strip b₁ = Text.strip b₂ ∧ Text.strip t₁ = Text.strip t₂ ∧
      Text.strip (n₁.getD defaultNamespace) = Text.strip (n₂.getD defaultNamespace) := by
  obtain ⟨t, n, ht, hn, -, hs⟩ := isolatedStreamId_eq_ok.mp h₁
  obtain ⟨t', n', ht', hn', -, hs'⟩ := isolatedStreamId_eq_ok.mp h₂
  obtain ⟨rfl, -, hcolon, -⟩ := validateName_eq_ok.mp ht
  obtain ⟨rfl, -, hcolon', -⟩ := validateName_eq_ok.mp ht'
  obtain ⟨hname, hncolon⟩ := validateNamespace_eq_ok hn
  obtain ⟨hname', hncolon'⟩ := validateNamespace_eq_ok hn'
  -- from the right: the namespace, then the tenant
  obtain ⟨hrest, hnamespace⟩ := Text.append_sep_inj_right hncolon hncolon' (hs.symm.trans hs')
  obtain ⟨hbase, htenant⟩ := Text.append_sep_inj_right hcolon hcolon' hrest
  rw [← hname, ← hname']
  exact ⟨hbase, htenant, hnamespace⟩

/-- White space around the names does not change the stream. -/
theorem isolatedStreamId_congr {b₁ b₂ t₁ t₂ : Str} {n₁ n₂ : Option Str}
    (hb : Text.strip b₁ = Text.strip b₂) (ht : Text.strip t₁ = Text.strip t₂)
    (hn : Text.strip (n₁.getD defaultNamespace) = Text.strip (n₂.getD defaultNamespace)) :
    isolatedStreamId b₁ t₁ n₁ = isolatedStreamId b₂ t₂ n₂ := by
  simp only [isolatedStreamId, validateNamespace_eq, validateName, hb, ht, hn]

/-- **The stream determines the base, the tenant and the namespace**, up to white space around them,
and is none of the streams without a separator in their names. -/
theorem stream_ids_unambiguous {b₁ b₂ t₁ t₂ s₁ s₂ : Str} {n₁ n₂ : Option Str}
    (h₁ : isolatedStreamId b₁ t₁ n₁ = .ok s₁) (h₂ : isolatedStreamId b₂ t₂ n₂ = .ok s₂) :
    (s₁ = s₂ ↔ Text.strip b₁ = Text.strip b₂ ∧ Text.strip t₁ = Text.strip t₂ ∧
      Text.strip (n₁.getD defaultNamespace) = Text.strip (n₂.getD defaultNamespace)) ∧
    ∀ shared : Str, ':' ∉ shared → s₁ ≠ shared := by
  refine ⟨⟨?_, ?_⟩, ?_⟩
  · rintro rfl
    exact isolatedStreamId_inj h₁ h₂
  · rintro ⟨hb, ht, hn⟩
    rw [isolatedStreamId_congr hb ht hn, h₂] at h₁
    exact (Except.ok.inj h₁).symm
  · rintro shared hcolon rfl
    obtain ⟨t, n, -, -, -, hs⟩ := isolatedStreamId_eq_ok.mp h₁
    exact hcolon (hs ▸ List.mem_append_right _ List.mem_cons_self)

/-- A base with a separator, and the stream that would be the same if names could have one. -/
theorem stream_ids_unambiguous_spans : ∃ s₁ s₂,
    isolatedStreamId "spans:acme".toList " prod ".toList none = .ok s₁ ∧
      isolatedStreamId "spans".toList "acme".toList (some "prod".toList) = .ok s₂ ∧ s₁ ≠ s₂ ∧
      s₁ ≠ "spans".toList := by
  have h₁ : isolatedStreamId "spans:acme".toList " prod ".toList none =
    .ok "spans:acme:prod:default".toList := by decide
  have h₂ : isolatedStreamId "spans".toList "acme".toList (some "prod".toList) =
    .ok "spans:acme:prod".toList := by decide
  obtain ⟨hiff, hshared⟩ := stream_ids_unambiguous h₁ h₂
  exact ⟨_, _, h₁, h₂, fun h ↦ absurd (hiff.mp h).1 (by decide), hshared _ (by decide)⟩

/-! ## Roles -/

/-- A role of a principal on a namespace of a tenant, or on all of them. -/
structure Membership where
  /-- The primary key. -/
  id : ℤ
  /-- The principal. -/
  principalId : Str
  /-- The tenant. -/
  tenantId : Str
  /-- The namespace, `*` for all of them. -/
  ns : Str
  /-- The role. -/
  role : Str
  /-- When the role was granted. -/
  updatedAt : Datetime
  deriving DecidableEq

/-- `ROLES`, which are the roles that may view. -/
def roles : List Str := ["owner".toList, "admin".toList, "viewer".toList]

/-- `_ROLE_RANK.get(role, 0)`. -/
def roleRank (role : Str) : ℕ :=
  if role = "viewer".toList then 1
  else if role = "admin".toList then 2
  else if role = "owner".toList then 3
  else 0

/-- `resolve_role`. -/
def resolveRole (memberships : List Membership) (principalId tenantId : Str) (ns : Option Str) :
    Option Str :=
  let principalId := Text.strip principalId
  let tenantId := Text.strip tenantId
  let ns := match ns with
    | none => defaultNamespace
    | some name => Text.strip name
  if principalId = [] ∨ tenantId = [] ∨ ns = [] then none
  else
    ((memberships.filter fun m ↦ m.principalId = principalId ∧ m.tenantId = tenantId ∧
      (m.ns = ns ∨ m.ns = tenantWide)).map Membership.role).argmax roleRank

/-- No namespace is the same as `default`. -/
theorem resolveRole_getD (memberships : List Membership) (p t : Str) (ns : Option Str) :
    resolveRole memberships p t (some (ns.getD defaultNamespace)) =
      resolveRole memberships p t ns := by
  cases ns with
  | none =>
    have hstrip : Text.strip defaultNamespace = defaultNamespace := by decide
    simp only [resolveRole, Option.getD_none, hstrip]
  | some name => rfl

/-- White space around the names does not change the role. -/
theorem resolveRole_congr {t₁ t₂ : Str} {n₁ n₂ : Option Str} (memberships : List Membership)
    (p : Str) (ht : Text.strip t₁ = Text.strip t₂)
    (hn : Text.strip (n₁.getD defaultNamespace) = Text.strip (n₂.getD defaultNamespace)) :
    resolveRole memberships p t₁ n₁ = resolveRole memberships p t₂ n₂ := by
  rw [← resolveRole_getD, ← resolveRole_getD memberships p t₂]
  simp only [resolveRole, ht, hn]

/-- The memberships a role is resolved from. -/
def Membership.Covers (m : Membership) (p t : Str) (ns : Option Str) : Prop :=
  m.principalId = Text.strip p ∧ m.tenantId = Text.strip t ∧
    (m.ns = Text.strip (ns.getD defaultNamespace) ∨ m.ns = tenantWide)

/-- A role that is resolved is that of a membership. -/
theorem exists_of_resolveRole {memberships : List Membership} {p t role : Str} {ns : Option Str}
    (h : resolveRole memberships p t ns = some role) :
    ∃ m ∈ memberships, m.role = role ∧ m.Covers p t ns := by
  rw [← resolveRole_getD, resolveRole] at h
  split_ifs at h
  obtain ⟨m, hm, hrole⟩ := List.mem_map.mp (List.argmax_mem h)
  obtain ⟨hm, hcovers⟩ := List.mem_filter.mp hm
  exact ⟨m, hm, hrole, by rwa [decide_eq_true_eq] at hcovers⟩

/-- A membership gives some role. -/
theorem resolveRole_ne_none {memberships : List Membership} {p t : Str} {ns : Option Str}
    (hp : Text.strip p ≠ []) (ht : Text.strip t ≠ [])
    (hns : Text.strip (ns.getD defaultNamespace) ≠ []) {m : Membership} (hm : m ∈ memberships)
    (hcovers : m.Covers p t ns) : resolveRole memberships p t ns ≠ none := by
  rw [← resolveRole_getD, resolveRole]
  simp only [hp, ht, hns, or_self, if_false]
  rw [Ne, List.argmax_eq_none, List.map_eq_nil_iff]
  refine List.ne_nil_of_mem (List.mem_filter.mpr ⟨hm, ?_⟩)
  rwa [decide_eq_true_eq]

/-- An `AccessDeniedError`. -/
structure AccessDeniedError where
  /-- The principal. -/
  principalId : Str
  /-- The tenant. -/
  tenantId : Str
  /-- The namespace. -/
  ns : Option Str
  deriving DecidableEq

/-- The text of an `AccessDeniedError`. -/
def AccessDeniedError.message (e : AccessDeniedError) : Str :=
  let ns := match e.ns with
    | none | some [] => defaultNamespace
    | some name => name
  "principal ".toList ++ Text.repr e.principalId ++ " cannot view tenant ".toList ++
    Text.repr e.tenantId ++ " namespace ".toList ++ Text.repr ns

/-- `assert_viewer_access`. -/
def assertViewerAccess (memberships : List Membership) (principalId tenantId : Str)
    (ns : Option Str) : Except AccessDeniedError Unit :=
  match resolveRole memberships principalId tenantId ns with
  | some role => if roles.contains role then .ok () else .error ⟨principalId, tenantId, ns⟩
  | none => .error ⟨principalId, tenantId, ns⟩

/-! ## Queries -/

/-- What `query_latest` raises. -/
inductive QueryError where
  | access (e : AccessDeniedError)
  | tenancy (e : TenancyError)
  /-- A checkpoint file or a payload cannot be read. -/
  | read
  deriving DecidableEq

/-- `query_latest`, on the store the tenant's data is in. -/
def queryLatest (memberships : List Membership) (st : Store) (principalId tenantId : Str)
    (ns : Option Str) (streamBase : Str) : Except QueryError (List Json) :=
  let ns := ns.getD defaultNamespace
  match assertViewerAccess memberships principalId tenantId (some ns) with
  | .error e => .error (.access e)
  | .ok () =>
    match isolatedStreamId streamBase tenantId (some ns) with
    | .error e => .error (.tenancy e)
    | .ok streamId =>
      match readLatest st streamId (some tenantId) with
      | none => .error .read
      | some payloads => .ok payloads

end WiseTraceLoom
