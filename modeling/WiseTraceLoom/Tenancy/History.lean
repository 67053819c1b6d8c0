import WiseTraceLoom.Tenancy.Directory

/-!
# Roles are what was granted and not revoked

The membership table is overwritten and deleted from, so it does not show how it came about.  Here
it is compared with the whole history of a sequence of calls: `liveRole` is the role a history gives
under a key, and `roles_refine_history` says that `resolve_role` is the highest role among the two
keys that cover a namespace, that of the namespace and that of the whole tenant.

The refinement is `Directory.Shows`: under every key the table has the role that is live.  Calls
that raise, calls that write other tables and revocations of what was never granted all keep it.
-/

set_option autoImplicit false

namespace WiseTraceLoom

variable {u : Unicode} {now : Timestamp} {dir dir' : Directory}

/-! ## Histories -/

/-- What a role is granted under: a principal, a tenant, and a namespace or `*`. -/
abbrev RoleKey := Str × Str × Str

/-- What a call of the host does to the roles. -/
inductive RoleEvent where
  | granted (key : RoleKey) (role : Str)
  | revoked (key : RoleKey)
  deriving DecidableEq

/-- The key an event is about. -/
def RoleEvent.key : RoleEvent → RoleKey
  | .granted key _ => key
  | .revoked key => key

/-- The role under the key after the event. -/
def RoleEvent.role : RoleEvent → Option Str
  | .granted _ role => some role
  | .revoked _ => none

/-- The role was granted under the key, and since then nothing was granted or revoked under it. -/
def Live (history : List RoleEvent) (key : RoleKey) (role : Str) : Prop :=
  ∃ before after, history = before ++ .granted key role :: after ∧ ∀ e ∈ after, e.key ≠ key

/-- The role that the last event under the key has left. -/
def liveRole (history : List RoleEvent) (key : RoleKey) : Option Str :=
  (history.reverse.find? fun e ↦ e.key = key).bind RoleEvent.role

theorem liveRole_concat (history : List RoleEvent) (e : RoleEvent) (key : RoleKey) :
    liveRole (history ++ [e]) key = if e.key = key then e.role else liveRole history key := by
  rw [liveRole, List.reverse_append, List.reverse_singleton, List.singleton_append,
    List.find?_cons]
  by_cases hkey : e.key = key
  · simp [hkey]
  · simp [hkey, liveRole]

/-- The two ways to say which role is live. -/
theorem live_iff {history : List RoleEvent} {key : RoleKey} {role : Str} :
    Live history key role ↔ liveRole history key = some role := by
  induction history using List.reverseRecOn with
  | nil => simp [Live, liveRole]
  | append_singleton history e ih =>
    rw [liveRole_concat]
    constructor
    · rintro ⟨before, after, hsplit, hafter⟩
      rcases after.eq_nil_or_concat' with rfl | ⟨after, e', rfl⟩
      · obtain ⟨-, hlast⟩ := List.append_inj' hsplit rfl
        rw [List.singleton_inj.mp hlast, if_pos (by rfl)]
        rfl
      · rw [← List.cons_append, ← List.append_assoc] at hsplit
        obtain ⟨hhistory, hlast⟩ := List.append_inj' hsplit rfl
        rw [List.singleton_inj.mp hlast, if_neg (hafter e' (by simp))]
        exact ih.mp ⟨before, after, hhistory, fun e he ↦ hafter e (by simp [he])⟩
    · intro h
      split_ifs at h with hkey
      · cases e with
        | granted key' role' =>
          obtain rfl : key' = key := hkey
          obtain rfl : role' = role := Option.some.inj h
          exact ⟨history, [], rfl, by simp⟩
        | revoked key' => cases h
      · obtain ⟨before, after, rfl, hafter⟩ := ih.mpr h
        refine ⟨before, after ++ [e], by simp, fun e' he' ↦ ?_⟩
        rcases List.mem_append.mp he' with he' | he'
        · exact hafter e' he'
        · rwa [List.mem_singleton.mp he']

variable {history : List RoleEvent}

/-! ## Calls -/

/-- A call of the host. -/
inductive AdminCall where
  | createTenant (tenantId : Str) (displayName ownerPrincipalId : Option Str)
  | createNamespace (tenantId name : Str)
  | grantRole (principalId tenantId role : Str) (ns : Option Str)
  | revokeRole (principalId tenantId : Str) (ns : Option Str)

/-- The tables after a call, whether it returns or raises. -/
def AdminCall.run (u : Unicode) (now : Timestamp) (dir : Directory) : AdminCall → Directory
  | .createTenant t displayName owner =>
    (WiseTraceLoom.createTenant u now t displayName owner dir).2
  | .createNamespace t name =>
    match WiseTraceLoom.createNamespace now t name dir with
    | .ok (_, dir') => dir'
    | .error _ => dir
  | .grantRole p t role ns =>
    match WiseTraceLoom.grantRole u now p t role ns dir with
    | .ok (_, dir') => dir'
    | .error _ => dir
  | .revokeRole p t ns => WiseTraceLoom.revokeRole p t ns dir

/-- The key of a grant or a revocation: the names stripped, and `*` for the whole tenant. -/
def roleKey (principalId tenantId : Str) (ns : Option Str) : RoleKey :=
  (Text.strip principalId, Text.strip tenantId, (ns.map Text.strip).getD tenantWide)

/-- What a call does to the roles: a grant counts if the call returns. -/
def AdminCall.event (u : Unicode) (now : Timestamp) (dir : Directory) :
    AdminCall → Option RoleEvent
  | .createTenant t displayName (some owner) =>
    match (WiseTraceLoom.createTenant u now t displayName (some owner) dir).1 with
    | .ok _ => some (.granted (roleKey owner t none) "owner".toList)
    | .error _ => none
  | .grantRole p t role ns =>
    match WiseTraceLoom.grantRole u now p t role ns dir with
    | .ok _ => some (.granted (roleKey p t ns) (u.lower (Text.strip role)))
    | .error _ => none
  | .revokeRole p t ns =>
    -- a revocation with an empty name returns before it looks for a row
    if Text.strip p = [] ∨ Text.strip t = [] ∨ (ns.map Text.strip).getD tenantWide = [] then none
    else some (.revoked (roleKey p t ns))
  | .createTenant _ _ none => none
  | .createNamespace _ _ => none

/-- What calls, one after the other, make of empty tables, and their history. -/
inductive AdminRun (u : Unicode) : Directory → List RoleEvent → Prop
  | nil : AdminRun u .empty []
  | snoc {dir : Directory} {history : List RoleEvent} (h : AdminRun u dir history)
      (now : Timestamp) (call : AdminCall) :
      AdminRun u (call.run u now dir) (history ++ (call.event u now dir).toList)

/-! ## The refinement -/

/-- The role the table has under a key. -/
def Directory.roleOf (dir : Directory) (key : RoleKey) : Option Str :=
  (dir.memberships.find? fun m ↦ m.key = key).map Membership.role

/-- Under every key the table has the role that is live. -/
def Directory.Shows (dir : Directory) (history : List RoleEvent) : Prop :=
  ∀ key, dir.roleOf key = liveRole history key

/-- A membership that is written changes the role under its key. -/
theorem Directory.Puts.roleOf {m : Membership} (h : dir.Puts m dir') (key : RoleKey) :
    dir'.roleOf key = if m.key = key then some m.role else dir.roleOf key := by
  rcases h with ⟨hnew, rfl⟩ | ⟨hold, rfl⟩
  · rw [Directory.roleOf, Directory.roleOf, find?_append_of_fresh hnew,
      apply_ite (Option.map Membership.role), Option.map_some]
  · rw [Directory.roleOf, Directory.roleOf, find?_replaceFirst hold,
      apply_ite (Option.map Membership.role), Option.map_some]

/-- A membership is found under its key. -/
theorem Directory.Ok.roleOf_eq_some (h : dir.Ok) {key : RoleKey} {role : Str} :
    dir.roleOf key = some role ↔ ∃ m ∈ dir.memberships, m.key = key ∧ m.role = role := by
  rw [Directory.roleOf, Option.map_eq_some_iff]
  constructor
  · rintro ⟨m, hm, rfl⟩
    exact ⟨m, List.mem_of_find?_eq_some hm, by simpa using List.find?_some hm, rfl⟩
  · rintro ⟨m, hm, rfl, rfl⟩
    obtain ⟨m', hm'⟩ : ∃ m', dir.memberships.find? (fun row ↦ row.key = m.key) = some m' :=
      Option.isSome_iff_exists.mp (List.find?_isSome.mpr ⟨m, hm, decide_eq_true rfl⟩)
    have hkey : m'.key = m.key := by simpa using List.find?_some hm'
    have hsame := List.inj_on_of_nodup_map h.unique (List.mem_of_find?_eq_some hm') hm hkey
    exact ⟨m', hm', congrArg Membership.role hsame⟩

/-- The names of a principal and a tenant that have a role are not empty. -/
def Directory.Named (dir : Directory) : Prop :=
  ∀ m ∈ dir.memberships, m.principalId ≠ [] ∧ m.tenantId ≠ []

theorem storedNamespace_eq_ok {ns : Option Str} {name : Str} (h : storedNamespace ns = .ok name) :
    name = (ns.map Text.strip).getD tenantWide := by
  cases ns with
  | none => exact (Except.ok.inj h).symm
  | some n => exact (validateName_eq_ok.mp (adminName_eq_ok.mp h)).1

/-- **A grant** gives its role under its key. -/
theorem grantRole_shows {p t role : Str} {ns : Option Str} {m : Membership}
    (h : grantRole u now p t role ns dir = .ok (m, dir'))
    (hshows : dir.Shows history) (hnamed : dir.Named) :
    dir'.Shows (history ++ [.granted (roleKey p t ns) (u.lower (Text.strip role))]) ∧
      dir'.Named := by
  obtain ⟨-, hputs, hp, ht, hrole, hns⟩ := grantRole_eq_ok h
  obtain ⟨hp, hpne, -⟩ := validateName_eq_ok.mp hp
  obtain ⟨ht, htne, -⟩ := validateName_eq_ok.mp ht
  have hkey : m.key = roleKey p t ns := by
    rw [Membership.key, roleKey, hp, ht, storedNamespace_eq_ok hns]
  constructor
  · intro key
    rw [hputs.roleOf, liveRole_concat, hshows key, ← hrole, ← hkey]
    rfl
  · intro row hrow
    rcases hputs with ⟨-, rfl⟩ | ⟨-, rfl⟩
    · rcases List.mem_append.mp hrow with hrow | hrow
      · exact hnamed row hrow
      · rw [List.mem_singleton.mp hrow]
        exact ⟨hpne, htne⟩
    · rcases mem_replaceFirst hrow with rfl | hrow
      · exact ⟨hpne, htne⟩
      · exact hnamed row hrow

/-- **A revocation** takes away the role under its key. -/
theorem revokeRole_shows (hok : dir.Ok) (hshows : dir.Shows history)
    (hnamed : dir.Named) (p t : Str) (ns : Option Str) :
    ((AdminCall.revokeRole p t ns).run u now dir).Shows
        (history ++ ((AdminCall.revokeRole p t ns).event u now dir).toList) ∧
      ((AdminCall.revokeRole p t ns).run u now dir).Named := by
  rw [AdminCall.run, AdminCall.event, revokeRole]
  by_cases hempty : Text.strip p = [] ∨ Text.strip t = [] ∨
    (ns.map Text.strip).getD tenantWide = []
  · simp only [if_pos hempty, Option.toList_none, List.append_nil]
    exact ⟨hshows, hnamed⟩
  · have hfor (m : Membership) : m.isFor (Text.strip p) (Text.strip t)
        ((ns.map Text.strip).getD tenantWide) = true ↔ m.key = roleKey p t ns :=
      Membership.isFor_iff
    have hok' := hok.step (u := u) (.revokeRole p t ns)
    rw [revokeRole, if_neg hempty] at hok'
    simp only [if_neg hempty, Option.toList_some]
    refine ⟨fun key ↦ ?_, fun m hm ↦ hnamed m (List.mem_of_mem_eraseP hm)⟩
    rw [liveRole_concat, ← hshows key]
    split_ifs with hkey
    · -- the constraint allows one row under the key, and it is gone
      refine Option.eq_none_iff_forall_ne_some.mpr fun role hrole ↦ ?_
      obtain ⟨m, hm, hmkey, -⟩ := hok'.roleOf_eq_some.mp hrole
      have hp : m.isFor _ _ _ = true := (hfor m).mpr (hmkey.trans hkey.symm)
      rcases List.exists_or_eq_self_of_eraseP (Membership.isFor (Text.strip p) (Text.strip t)
        ((ns.map Text.strip).getD tenantWide)) dir.memberships with
        hsame | ⟨a, l₁, l₂, hl₁, ha, hl, he⟩
      · exact List.eraseP_eq_self_iff.mp hsame m (List.mem_of_mem_eraseP hm) hp
      · rw [he, List.mem_append] at hm
        rcases hm with hm | hm
        · exact hl₁ m hm hp
        · have hunique := hok.unique
          rw [hl, List.map_append, List.map_cons, List.nodup_append, List.nodup_cons] at hunique
          refine hunique.2.1.1 (List.mem_map.mpr ⟨m, hm, ?_⟩)
          rw [(hfor m).mp hp, (hfor a).mp ha]
    · refine Option.ext fun role ↦ ?_
      rw [hok'.roleOf_eq_some, hok.roleOf_eq_some]
      refine exists_congr fun m ↦ and_congr_left fun hm ↦ ?_
      refine List.mem_eraseP_of_neg fun hp ↦ hkey ?_
      exact ((hfor m).mp hp).symm.trans hm.1

theorem createTenant_shows (hshows : dir.Shows history) (hnamed : dir.Named) (t : Str)
    (displayName owner : Option Str) :
    ((AdminCall.createTenant t displayName owner).run u now dir).Shows
        (history ++ ((AdminCall.createTenant t displayName owner).event u now dir).toList) ∧
      ((AdminCall.createTenant t displayName owner).run u now dir).Named := by
  rw [AdminCall.run]
  cases hrow : registerTenant now t displayName dir with
  | error e =>
    have hrun (owner : Option Str) :
        WiseTraceLoom.createTenant u now t displayName owner dir = (.error e, dir) := by
      rw [WiseTraceLoom.createTenant, hrow]
    cases owner with
    | none => simpa only [AdminCall.event, hrun, Option.toList_none, List.append_nil] using
        ⟨hshows, hnamed⟩
    | some p => simpa only [AdminCall.event, hrun, Option.toList_none, List.append_nil] using
        ⟨hshows, hnamed⟩
  | ok result =>
    obtain ⟨row, dir₁⟩ := result
    obtain ⟨hname, -, hmemberships, -⟩ := registerTenant_eq_ok hrow
    -- the tenant is registered, and nobody has a role yet that was not there before
    have hshows₁ : dir₁.Shows history := fun key ↦ by
      rw [← hshows key, Directory.roleOf, hmemberships]
      rfl
    have hnamed₁ : dir₁.Named := fun m hm ↦ hnamed m (hmemberships ▸ hm)
    cases owner with
    | none =>
      rw [AdminCall.event, Option.toList_none, List.append_nil, WiseTraceLoom.createTenant, hrow]
      exact ⟨hshows₁, hnamed₁⟩
    | some p =>
      cases hgrant : grantRole u now p row.tenantId "owner".toList none dir₁ with
      | error e =>
        have hrun : WiseTraceLoom.createTenant u now t displayName (some p) dir =
            (.error e, dir₁) := by
          rw [WiseTraceLoom.createTenant, hrow]
          simp only [hgrant]
        simpa only [AdminCall.event, hrun, Option.toList_none, List.append_nil] using
          ⟨hshows₁, hnamed₁⟩
      | ok result =>
        obtain ⟨m, dir₂⟩ := result
        have hrun : WiseTraceLoom.createTenant u now t displayName (some p) dir =
            (.ok row, dir₂) := by
          rw [WiseTraceLoom.createTenant, hrow]
          simp only [hgrant]
        have hlower : u.lower (Text.strip "owner".toList) = "owner".toList :=
          u.lower_ascii _ (by decide)
        have hkey : roleKey p row.tenantId none = roleKey p t none := by
          rw [roleKey, roleKey, hname, Text.strip_strip]
        have hgranted := grantRole_shows hgrant hshows₁ hnamed₁
        rw [hlower, hkey] at hgranted
        simpa only [AdminCall.event, hrun, Option.toList_some] using hgranted

/-- **Every call keeps the refinement.** -/
theorem AdminCall.shows (hok : dir.Ok) (hshows : dir.Shows history) (hnamed : dir.Named)
    (call : AdminCall) :
    (call.run u now dir).Shows (history ++ (call.event u now dir).toList) ∧
      (call.run u now dir).Named := by
  cases call with
  | createTenant t displayName owner => exact createTenant_shows hshows hnamed t displayName owner
  | createNamespace t name =>
    rw [AdminCall.run, AdminCall.event, Option.toList_none, List.append_nil]
    cases hrow : WiseTraceLoom.createNamespace now t name dir with
    | error e => exact ⟨hshows, hnamed⟩
    | ok result =>
      obtain ⟨row, dir'⟩ := result
      obtain rfl := createNamespace_eq_ok hrow
      exact ⟨hshows, hnamed⟩
  | grantRole p t role ns =>
    rw [AdminCall.run, AdminCall.event]
    cases hgrant : WiseTraceLoom.grantRole u now p t role ns dir with
    | error e =>
      rw [Option.toList_none, List.append_nil]
      exact ⟨hshows, hnamed⟩
    | ok result => exact grantRole_shows hgrant hshows hnamed
  | revokeRole p t ns => exact revokeRole_shows hok hshows hnamed p t ns

/-- A call is at most two transactions. -/
theorem AdminCall.reachable (h : dir.Reachable u) (call : AdminCall) :
    (call.run u now dir).Reachable u := by
  cases call with
  | createTenant t displayName owner => exact createTenant_reachable h
  | createNamespace t name =>
    rw [AdminCall.run]
    cases hrow : WiseTraceLoom.createNamespace now t name dir with
    | error e => exact h
    | ok result => exact h.tail (.createNamespace hrow)
  | grantRole p t role ns =>
    rw [AdminCall.run]
    cases hgrant : WiseTraceLoom.grantRole u now p t role ns dir with
    | error e => exact h
    | ok result => exact h.tail (.grantRole hgrant)
  | revokeRole p t ns => exact h.tail (.revokeRole p t ns)

theorem AdminRun.reachable (h : AdminRun u dir history) : dir.Reachable u := by
  induction h with
  | nil => exact .refl
  | snoc _ now call ih => exact call.reachable ih

/-- **The table refines its history.** -/
theorem AdminRun.shows (h : AdminRun u dir history) : dir.Shows history ∧ dir.Named := by
  induction h with
  | nil => exact ⟨fun _ ↦ rfl, fun m hm ↦ absurd hm List.not_mem_nil⟩
  | snoc hrun now call ih => exact call.shows hrun.reachable.ok ih.1 ih.2

/-! ## Roles -/

/-- The keys that cover a namespace: its own, and that of the whole tenant. -/
def roleKeys (p t : Str) (ns : Option Str) : List RoleKey :=
  [(Text.strip p, Text.strip t, Text.strip (ns.getD defaultNamespace)),
    (Text.strip p, Text.strip t, tenantWide)]

theorem Membership.covers_iff {m : Membership} {p t : Str} {ns : Option Str} :
    m.Covers p t ns ↔ m.key ∈ roleKeys p t ns := by
  simp only [Membership.Covers, Membership.key, roleKeys, List.mem_cons, List.not_mem_nil,
    or_false, Prod.mk.injEq]
  tauto

theorem roleRank_injOn {role role' : Str} (h : role ∈ roles) (h' : role' ∈ roles)
    (hrank : roleRank role = roleRank role') : role = role' := by
  have hall : ∀ r ∈ roles, ∀ r' ∈ roles, roleRank r = roleRank r' → r = r' := by decide +kernel
  exact hall role h role' h' hrank

/-- **What `resolve_role` returns**: the highest of the roles under the two keys. -/
theorem Directory.Ok.resolveRole_eq_some (h : dir.Ok) (hnamed : dir.Named) {p t role : Str}
    {ns : Option Str} (hns : Text.strip (ns.getD defaultNamespace) ≠ []) :
    resolveRole dir.memberships p t ns = some role ↔
      (∃ key ∈ roleKeys p t ns, dir.roleOf key = some role) ∧
        ∀ key ∈ roleKeys p t ns, ∀ role', dir.roleOf key = some role' →
          roleRank role' ≤ roleRank role := by
  rw [← resolveRole_getD, resolveRole]
  simp only [hns, or_false]
  have hmem (r : Str) : (∃ m ∈ dir.memberships, m.Covers p t ns ∧ m.role = r) ↔
      ∃ key ∈ roleKeys p t ns, dir.roleOf key = some r := by
    constructor
    · rintro ⟨m, hm, hcovers, hrole⟩
      exact ⟨m.key, m.covers_iff.mp hcovers, h.roleOf_eq_some.mpr ⟨m, hm, rfl, hrole⟩⟩
    · rintro ⟨key, hkey, hrole⟩
      obtain ⟨m, hm, rfl, hmrole⟩ := h.roleOf_eq_some.mp hrole
      exact ⟨m, hm, Membership.covers_iff.mpr hkey, hmrole⟩
  by_cases hempty : Text.strip p = [] ∨ Text.strip t = []
  · rw [if_pos hempty]
    constructor
    · rintro ⟨⟩
    · rintro ⟨hsome, -⟩
      obtain ⟨m, hm, hcovers, -⟩ := (hmem role).mpr hsome
      obtain ⟨hp, ht⟩ := hnamed m hm
      rw [hcovers.1] at hp
      rw [hcovers.2.1] at ht
      exact absurd hempty (not_or.mpr ⟨hp, ht⟩)
  · rw [if_neg hempty]
    have hroles (r : Str) : r ∈ (dir.memberships.filter fun m ↦
          m.principalId = Text.strip p ∧ m.tenantId = Text.strip t ∧
            (m.ns = Text.strip (ns.getD defaultNamespace) ∨ m.ns = tenantWide)).map
              Membership.role ↔
        ∃ key ∈ roleKeys p t ns, dir.roleOf key = some r := by
      rw [← hmem, List.mem_map]
      simp only [List.mem_filter, decide_eq_true_eq, Membership.Covers, and_assoc]
    constructor
    · intro hmax
      refine ⟨(hroles role).mp (List.argmax_mem hmax), fun key hkey role' hrole' ↦ ?_⟩
      exact List.le_of_mem_argmax ((hroles role').mpr ⟨key, hkey, hrole'⟩) hmax
    · rintro ⟨hsome, hmax⟩
      -- the roles have different ranks, so the maximum is `role` itself
      have hmemrole := (hroles role).mpr hsome
      obtain ⟨best, hbest⟩ := Option.ne_none_iff_exists'.mp
        ((List.argmax_eq_none (f := roleRank)).not.mpr (List.ne_nil_of_mem hmemrole))
      obtain ⟨key, hkey, hbestrole⟩ := (hroles best).mp (List.argmax_mem hbest)
      have hrank : roleRank best = roleRank role :=
        Nat.le_antisymm (hmax key hkey best hbestrole) (List.le_of_mem_argmax hmemrole hbest)
      obtain ⟨m, hm, -, hmrole⟩ := (hmem role).mpr hsome
      obtain ⟨m', hm', -, hmrole'⟩ := (hmem best).mpr ⟨key, hkey, hbestrole⟩
      have hvalid : role ∈ roles := hmrole ▸ (h.grants m hm).role
      have hvalid' : best ∈ roles := hmrole' ▸ (h.grants m' hm').role
      rw [hbest, roleRank_injOn hvalid' hvalid hrank]

/-- An empty namespace gives no role. -/
theorem resolveRole_blank (memberships : List Membership) (p t : Str) {ns : Option Str}
    (hns : Text.strip (ns.getD defaultNamespace) = []) : resolveRole memberships p t ns = none := by
  rw [← resolveRole_getD, resolveRole]
  simp only [hns, or_true, if_true]

/-- The role is live under one of the keys, and no role that is live under them ranks higher. -/
def HighestLive (history : List RoleEvent) (keys : List RoleKey) (role : Str) : Prop :=
  (∃ key ∈ keys, Live history key role) ∧
    ∀ key ∈ keys, ∀ role', Live history key role' → roleRank role' ≤ roleRank role

theorem AdminRun.resolveRole_eq_some (h : AdminRun u dir history) {p t role : Str}
    {ns : Option Str} (hns : Text.strip (ns.getD defaultNamespace) ≠ []) :
    resolveRole dir.memberships p t ns = some role ↔
      HighestLive history (roleKeys p t ns) role := by
  rw [h.reachable.ok.resolveRole_eq_some h.shows.2 hns, HighestLive]
  simp only [live_iff, h.shows.1 _]

/-- Some live role gives a role that is at least as high. -/
theorem AdminRun.exists_resolveRole (h : AdminRun u dir history) {p t role : Str}
    {ns : Option Str} (hns : Text.strip (ns.getD defaultNamespace) ≠ []) {key : RoleKey}
    (hkey : key ∈ roleKeys p t ns) (hlive : Live history key role) :
    ∃ role', resolveRole dir.memberships p t ns = some role' ∧ roleRank role ≤ roleRank role' := by
  obtain ⟨m, hm, hmkey, -⟩ := h.reachable.ok.roleOf_eq_some.mp
    ((h.shows.1 key).trans (live_iff.mp hlive))
  have hcovers : m.Covers p t ns := Membership.covers_iff.mpr (hmkey ▸ hkey)
  have hnamed := h.shows.2 m hm
  rw [hcovers.1, hcovers.2.1] at hnamed
  obtain ⟨role', hrole'⟩ := Option.ne_none_iff_exists'.mp
    (resolveRole_ne_none hnamed.1 hnamed.2 hns hm hcovers)
  exact ⟨role', hrole', ((h.resolveRole_eq_some hns).mp hrole').2 key hkey role hlive⟩

/-- A grant on a namespace is no grant on the whole tenant. -/
theorem AdminCall.event_key_ne {p t role : Str} {n : Str} {e : RoleEvent}
    (he : (AdminCall.grantRole p t role (some n)).event u now dir = some e) :
    e.key.2.2 ≠ tenantWide := by
  rw [AdminCall.event] at he
  cases hgrant : WiseTraceLoom.grantRole u now p t role (some n) dir with
  | error e =>
    rw [hgrant] at he
    cases he
  | ok result =>
    rw [hgrant] at he
    obtain rfl := Option.some.inj he
    obtain ⟨m, dir'⟩ := result
    obtain ⟨-, -, -, -, -, hns⟩ := grantRole_eq_ok hgrant
    obtain ⟨hname, -, -, hwide⟩ := validateName_eq_ok.mp (adminName_eq_ok.mp hns)
    rw [hname] at hwide
    exact hwide

/-- **Roles refine their history.**  After any calls, `resolve_role` of a namespace that is not
blank is the highest of the roles that are live for the namespace or the whole tenant; without one
there is no role and the gate lets nobody through.  A role on the whole tenant stays whatever is
granted on a namespace, and it is a lower bound of what is resolved. -/
theorem roles_refine_history (h : AdminRun u dir history) (p t : Str) (ns : Option Str) :
    (Text.strip (ns.getD defaultNamespace) = [] → resolveRole dir.memberships p t ns = none) ∧
    (Text.strip (ns.getD defaultNamespace) ≠ [] →
      (∀ role, resolveRole dir.memberships p t ns = some role ↔
        HighestLive history (roleKeys p t ns) role) ∧
      (resolveRole dir.memberships p t ns = none ↔
        ∀ key ∈ roleKeys p t ns, ∀ role, ¬Live history key role) ∧
      (assertViewerAccess dir.memberships p t ns = .ok () ↔
        ∃ key ∈ roleKeys p t ns, ∃ role, Live history key role) ∧
      ∀ role, Live history (Text.strip p, Text.strip t, tenantWide) role →
        ∃ role', resolveRole dir.memberships p t ns = some role' ∧
          roleRank role ≤ roleRank role') ∧
    (assertViewerAccess dir.memberships p t ns = .ok () ↔
      resolveRole dir.memberships p t ns ≠ none) ∧
    ∀ now p' t' role' n role,
      Live (history ++ ((AdminCall.grantRole p' t' role' (some n)).event u now dir).toList)
          (Text.strip p, Text.strip t, tenantWide) role ↔
        Live history (Text.strip p, Text.strip t, tenantWide) role := by
  have haccess := h.reachable.access_iff p t ns
  refine ⟨resolveRole_blank _ p t, fun hns ↦ ?_, haccess, fun now p' t' role' n role ↦ ?_⟩
  · have hsome : resolveRole dir.memberships p t ns ≠ none ↔
        ∃ key ∈ roleKeys p t ns, ∃ role, Live history key role := by
      constructor
      · intro hrole
        obtain ⟨role, hrole⟩ := Option.ne_none_iff_exists'.mp hrole
        obtain ⟨key, hkey, hlive⟩ := ((h.resolveRole_eq_some hns).mp hrole).1
        exact ⟨key, hkey, role, hlive⟩
      · rintro ⟨key, hkey, role, hlive⟩
        obtain ⟨role', hrole', -⟩ := h.exists_resolveRole hns hkey hlive
        exact Option.ne_none_iff_exists'.mpr ⟨role', hrole'⟩
    refine ⟨fun role ↦ h.resolveRole_eq_some hns, ?_, haccess.trans hsome, fun role hlive ↦ ?_⟩
    · rw [← not_iff_not]
      push Not
      exact hsome
    · exact h.exists_resolveRole hns (List.mem_cons_of_mem _ (List.mem_singleton_self _)) hlive
  · cases he : (AdminCall.grantRole p' t' role' (some n)).event u now dir with
    | none => rw [Option.toList_none, List.append_nil]
    | some e =>
      have hkey : e.key ≠ (Text.strip p, Text.strip t, tenantWide) :=
        fun hkey ↦ AdminCall.event_key_ne he (congrArg (fun key ↦ key.2.2) hkey)
      rw [Option.toList_some, live_iff, live_iff, liveRole_concat, if_neg hkey]

/-- Ann owns a tenant, is made a viewer of a namespace, and Bob's role is taken away. -/
def annCalls : List AdminCall :=
  [.createTenant " acme".toList none (some "ann".toList),
    .createNamespace "acme".toList "prod".toList,
    .grantRole "ann".toList "acme".toList "Viewer".toList (some "prod".toList),
    .grantRole "bob".toList "acme".toList "admin".toList (some "prod ".toList),
    .revokeRole " bob".toList "acme".toList (some "prod".toList)]

/-- The tables and the history after calls that are made at one time. -/
def runAdmin (u : Unicode) (now : Timestamp) :
    List AdminCall → Directory × List RoleEvent → Directory × List RoleEvent
  | [], c => c
  | call :: calls, c =>
    runAdmin u now calls (call.run u now c.1, c.2 ++ (call.event u now c.1).toList)

theorem AdminRun.runAdmin (calls : List AdminCall) {c : Directory × List RoleEvent}
    (h : AdminRun u c.1 c.2) :
    AdminRun u (runAdmin u now calls c).1 (runAdmin u now calls c).2 := by
  induction calls generalizing c with
  | nil => exact h
  | cons call calls ih => exact ih (h.snoc now call)

/-- The tables after Ann's calls, and their history. -/
def annRun : Directory × List RoleEvent := runAdmin .ascii noon annCalls (.empty, [])

/-- Ann stays an owner, and Bob is nobody. -/
theorem ann_refines_history :
    AdminRun .ascii annRun.1 annRun.2 ∧
    HighestLive annRun.2 (roleKeys "ann".toList "acme".toList (some "prod".toList))
      "owner".toList ∧
    resolveRole annRun.1.memberships "bob".toList "acme".toList (some "prod".toList) = none ∧
    ¬∃ role, Live annRun.2 ("bob".toList, "acme".toList, "prod".toList) role := by
  have hrun : AdminRun .ascii annRun.1 annRun.2 := AdminRun.nil.runAdmin annCalls
  have hann : resolveRole annRun.1.memberships "ann".toList "acme".toList (some "prod".toList) =
      some "owner".toList := by decide +kernel
  have hbob : resolveRole annRun.1.memberships "bob".toList "acme".toList (some "prod".toList) =
      none := by decide +kernel
  obtain ⟨hhighest, -⟩ :=
    (roles_refine_history hrun "ann".toList "acme".toList (some "prod".toList)).2.1 (by decide)
  obtain ⟨-, hnone, -⟩ :=
    (roles_refine_history hrun "bob".toList "acme".toList (some "prod".toList)).2.1 (by decide)
  refine ⟨hrun, (hhighest _).mp hann, hbob, ?_⟩
  rintro ⟨role, hlive⟩
  exact hnone.mp hbob _ (List.mem_cons_self ..) role hlive

end WiseTraceLoom
