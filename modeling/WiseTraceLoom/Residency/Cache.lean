import WiseTraceLoom.Lib.Interleaving
import WiseTraceLoom.Residency
import WiseTraceLoom.Storage.Config

/-!
# The region cache

The row a tenant is routed by is looked up once and then kept in a cache of the process, also when
there is none; `set_region_config` clears the whole cache after its commit.  Neither holds a lock,
so `RegionStep` is one step of a call that runs among others.

A reader that has read before a commit and stores after the clear puts a row into the cache that was
replaced, where it stays.  Without such stores (`CurrentStore`) the cache is right whenever no
writer is between its commit and its clear (`RegionCalls.CacheOk`), and routing is fresh whenever no
writer is under way (`routing_fresh_of_current`).
-/

set_option autoImplicit false

namespace WiseTraceLoom

open Interleaving

/-! ## The statements -/

/-- The first row of a tenant, `none` for the global row. -/
def Routing.row (r : Routing) (tenantId : Option Str) : Option RegionConfig :=
  r.regionConfigs.find? fun row ↦ row.tenantId = tenantId

/-- What `resolve_engine` makes of the row a tenant is routed by. -/
def Routing.route (r : Routing) (tenantId : Option Str) (config : Option RegionConfig) :
    Except UnroutedRegionError Str :=
  match config with
  | none => .ok r.defaultPath
  | some row =>
    match r.getRegionDbPath row.region with
    | none => .error ⟨tenantId, row.region⟩
    | some path => .ok path

theorem Routing.resolveEngine_eq_route (r : Routing) (t : Option Str) :
    r.resolveEngine t = r.route t (r.getRegionConfig t) := by
  rw [resolveEngine, resolveRegion]
  cases r.getRegionConfig t <;> rfl

theorem Routing.getRegionConfig_of_row {r : Routing} {t : Str} {row : RegionConfig}
    (h : r.row (some t) = some row) : r.getRegionConfig (some t) = some row := by
  rw [Routing.row] at h
  rw [getRegionConfig, Option.bind_some, h, Option.some_or]

theorem Routing.getRegionConfig_of_no_row {r : Routing} {t : Str} (h : r.row (some t) = none) :
    r.getRegionConfig (some t) = r.row none := by
  rw [Routing.row] at h
  rw [getRegionConfig, Option.bind_some, h, Option.none_or, Routing.row]

/-- The write of `set_region_config`: an insert, or an update of the row that was loaded.  The
region is written only if it differs from the one that was loaded. -/
def Routing.writeRegion (r : Routing) (tenantId : Option Str) (region : Str)
    (loaded : Option RegionConfig) : Routing :=
  { r with
    regionConfigs :=
      match loaded with
      | none => r.regionConfigs ++ [⟨tenantId, region⟩]
      | some row =>
        if row.region = region then r.regionConfigs
        else replaceFirst (fun row ↦ row.tenantId = tenantId) ⟨tenantId, region⟩ r.regionConfigs }

/-! ## A call among others -/

/-- The tables routing depends on, and the cache of the process. -/
structure RegionCache where
  /-- The default store, the rows and the files of the regions. -/
  routing : Routing
  /-- The rows that were looked up, `some none` where there was none. -/
  entries : Option Str → Option (Option RegionConfig)

/-- Where a call to `resolve_engine`, with the `get_region_config` it makes, or to
`set_region_config` stands. -/
inductive RegionCall where
  | resolving (tenantId : Option Str)
  /-- The cache has no entry. -/
  | missed (tenantId : Option Str)
  /-- The tenant has no row of its own. -/
  | unassigned (tenantId : Str)
  /-- The rows were read. -/
  | read (tenantId : Option Str) (config : Option RegionConfig)
  /-- `get_region_config` has returned. -/
  | got (tenantId : Option Str) (config : Option RegionConfig)
  | resolved (tenantId : Option Str) (engine : Except UnroutedRegionError Str)
  | setting (tenantId : Option Str) (region : Str)
  /-- The row of the tenant was looked up. -/
  | looked (tenantId : Option Str) (region : Str) (loaded : Option RegionConfig)
  /-- The row was committed, and the cache has yet to be cleared. -/
  | committed (tenantId : Option Str) (region : Str)
  | configured (tenantId : Option Str) (region : Str)
  | raised

/-- Is the call about to start? -/
def RegionCall.fresh : RegionCall → Bool
  | .resolving _ => true
  | .setting _ _ => true
  | _ => false

/-- Is a `set_region_config` under way? -/
def RegionCall.writing : RegionCall → Bool
  | .looked _ _ _ => true
  | .committed _ _ => true
  | _ => false

/-- Is a `set_region_config` about to start or under way? -/
def RegionCall.writer : RegionCall → Bool
  | .setting _ _ => true
  | c => c.writing

/-- Has a `set_region_config` committed and yet to clear the cache? -/
def RegionCall.clearing : RegionCall → Bool
  | .committed _ _ => true
  | _ => false

/-- Can a statement of the call still raise? -/
def RegionCall.mayRaise : RegionCall → Bool
  | .missed _ => true
  | .unassigned _ => true
  | .setting _ _ => true
  | .looked _ _ _ => true
  | _ => false

/-- One step of a call. -/
inductive RegionStep : RegionCache → RegionCall → RegionCache → RegionCall → Prop
  | hit {x : RegionCache} {t : Option Str} {config : Option RegionConfig}
      (h : x.entries t = some config) : RegionStep x (.resolving t) x (.got t config)
  | miss {x : RegionCache} {t : Option Str} (h : x.entries t = none) :
      RegionStep x (.resolving t) x (.missed t)
  | readTenant {x : RegionCache} {t : Str} {row : RegionConfig}
      (h : x.routing.row (some t) = some row) :
      RegionStep x (.missed (some t)) x (.read (some t) (some row))
  | noTenant {x : RegionCache} {t : Str} (h : x.routing.row (some t) = none) :
      RegionStep x (.missed (some t)) x (.unassigned t)
  | readGlobal {x : RegionCache} {t : Str} :
      RegionStep x (.unassigned t) x (.read (some t) (x.routing.row none))
  | readGlobalOnly {x : RegionCache} :
      RegionStep x (.missed none) x (.read none (x.routing.row none))
  | store {x : RegionCache} {t : Option Str} {config : Option RegionConfig} :
      RegionStep x (.read t config)
        { x with entries := Function.update x.entries t (some config) } (.got t config)
  | resolve {x : RegionCache} {t : Option Str} {config : Option RegionConfig} :
      RegionStep x (.got t config) x (.resolved t (x.routing.route t config))
  | look {x : RegionCache} {t : Option Str} {region : Str} :
      RegionStep x (.setting t region) x (.looked t region (x.routing.row t))
  | commit {x : RegionCache} {t : Option Str} {region : Str} {loaded : Option RegionConfig} :
      RegionStep x (.looked t region loaded)
        { x with routing := x.routing.writeRegion t region loaded } (.committed t region)
  | clear {x : RegionCache} {t : Option Str} {region : Str} :
      RegionStep x (.committed t region) { x with entries := fun _ ↦ none } (.configured t region)
  /-- A statement raises, and nothing is committed. -/
  | fail {x : RegionCache} {c : RegionCall} (h : c.mayRaise = true) : RegionStep x c x .raised

/-- **What a step can do to cache and rows**: it stores what it has read, commits, clears, or leaves
both alone and is no step from a commit to a clear. -/
theorem RegionStep.effect {x x' : RegionCache} {c c' : RegionCall} (h : RegionStep x c x' c') :
    (x' = x ∧ c.clearing = false ∧ c'.clearing = false) ∨
      (∃ t config, c = .read t config ∧ c' = .got t config ∧
        x' = { x with entries := Function.update x.entries t (some config) }) ∨
      (∃ t region loaded, c = .looked t region loaded ∧ c' = .committed t region ∧
        x' = { x with routing := x.routing.writeRegion t region loaded }) ∨
      ∃ t region, c = .committed t region ∧ c' = .configured t region ∧
        x' = { x with entries := fun _ ↦ none } := by
  cases h
  case store t config => exact Or.inr (Or.inl ⟨t, config, rfl, rfl, rfl⟩)
  case commit t region loaded => exact Or.inr (Or.inr (Or.inl ⟨t, region, loaded, rfl, rfl, rfl⟩))
  case clear t region => exact Or.inr (Or.inr (Or.inr ⟨t, region, rfl, rfl, rfl⟩))
  case fail h => cases c <;> simp_all [RegionCall.mayRaise, RegionCall.clearing]
  all_goals exact Or.inl ⟨rfl, rfl, rfl⟩

/-! ## Runs -/

variable {ι : Type}

/-- Any number of calls in one process. -/
abbrev RegionCalls (ι : Type) := Config ι RegionCache RegionCall

/-- The process has started: the cache is empty, and every call is about to start. -/
structure RegionCalls.Initial (c : RegionCalls ι) : Prop where
  /-- The cache is empty. -/
  entries : ∀ t, c.shared.entries t = none
  /-- The calls are about to start. -/
  fresh : ∀ i, (c.locals i).fresh = true

/-- No `set_region_config` is under way. -/
def RegionCalls.Quiet (c : RegionCalls ι) : Prop := ∀ i, (c.locals i).writing = false

/-- Some `set_region_config` has committed and has yet to clear the cache. -/
def RegionCalls.Clearing (c : RegionCalls ι) : Prop := ∃ i, (c.locals i).clearing = true

theorem RegionCalls.Quiet.not_clearing {c : RegionCalls ι} (h : c.Quiet) : ¬ c.Clearing := by
  rintro ⟨i, hi⟩
  have := h i
  cases hc : c.locals i <;> simp_all [RegionCall.writing, RegionCall.clearing]

/-- What a reader stores is what the rows say, or the cache is going to be cleared. -/
def CurrentStore (c : RegionCalls ι) (i : ι) (x' : RegionCache) (t' : RegionCall) : Prop :=
  RegionStep c.shared (c.locals i) x' t' ∧ ∀ t config, c.locals i = .read t config →
    config = c.shared.routing.getRegionConfig t ∨ c.Clearing

/-- A step of a reader. -/
def ReaderStep (allowed : RegionCalls ι → ι → RegionCache → RegionCall → Prop) (c : RegionCalls ι)
    (i : ι) (x' : RegionCache) (t' : RegionCall) : Prop :=
  allowed c i x' t' ∧ (c.locals i).writer = false

/-- Whenever no writer is between its commit and its clear, the cache says what the rows say. -/
def RegionCalls.CacheOk (c : RegionCalls ι) : Prop :=
  c.Clearing ∨ ∀ t config, c.shared.entries t = some config →
    config = c.shared.routing.getRegionConfig t

variable [DecidableEq ι]

theorem RegionCalls.Clearing.set {c : RegionCalls ι} {i : ι} {x' : RegionCache} {t' : RegionCall}
    (h : c.Clearing) (hi : (c.locals i).clearing = false) :
    RegionCalls.Clearing (c.set i x' t') := by
  obtain ⟨j, hj⟩ := h
  refine ⟨j, ?_⟩
  have hji : j ≠ i := by
    rintro rfl
    simp [hi] at hj
  rwa [Config.set_locals_ne c x' t' hji]

/-- **One step** keeps the cache right. -/
theorem CurrentStore.cacheOk {c : RegionCalls ι} {i : ι} {x' : RegionCache} {t' : RegionCall}
    (hc : c.CacheOk) (h : CurrentStore c i x' t') : RegionCalls.CacheOk (c.set i x' t') := by
  obtain ⟨hstep, hcurrent⟩ := h
  rcases hstep.effect with ⟨rfl, hi, -⟩ | ⟨t, config, hi, -, rfl⟩ | ⟨t, region, loaded, -, rfl, -⟩ |
    ⟨t, region, -, -, rfl⟩
  · exact hc.imp (fun hclearing ↦ hclearing.set hi) id
  · have hnot : (c.locals i).clearing = false := by rw [hi]; rfl
    rcases hcurrent t config hi with hconfig | hclearing
    · refine hc.imp (fun hclearing ↦ hclearing.set hnot) ?_
      intro hentries t' config' hentry
      simp only [Config.set_shared, Function.update_apply] at hentry
      split_ifs at hentry with ht
      · rw [ht, ← Option.some.inj hentry]
        exact hconfig
      · exact hentries t' config' hentry
    · exact Or.inl (hclearing.set hnot)
  · refine Or.inl ⟨i, ?_⟩
    rw [Config.set_locals_self]
    rfl
  · refine Or.inr ?_
    rintro t' config' ⟨⟩

/-- The cache is right in every state that is reached with current stores. -/
theorem RegionCalls.Initial.cacheOk {c d : RegionCalls ι} {l : List RegionCall} (hc : c.Initial)
    (h : Trace CurrentStore c l d) : d.CacheOk := by
  refine h.invariant (fun _ _ _ _ ↦ CurrentStore.cacheOk) (Or.inr ?_)
  intro t config hentry
  rw [hc.entries t] at hentry
  exact absurd hentry (by simp)

/-! ## A reader while no writer is under way -/

/-- What a reader has found is what the rows say. -/
def RegionCall.Current (r : Routing) : RegionCall → Prop
  | .unassigned t => r.row (some t) = none
  | .read t config => config = r.getRegionConfig t
  | .got t config => config = r.getRegionConfig t
  | .resolved t engine => engine = r.resolveEngine t
  | _ => True

/-- A reader does not change the rows, and does not become a writer. -/
theorem RegionStep.reader {x x' : RegionCache} {c c' : RegionCall} (h : RegionStep x c x' c')
    (hc : c.writer = false) : x'.routing = x.routing ∧ c'.writing = false := by
  cases h <;> simp_all [RegionCall.writer, RegionCall.writing]

/-- **One step of a reader** that finds a right cache. -/
theorem RegionStep.current {x x' : RegionCache} {c c' : RegionCall} (h : RegionStep x c x' c')
    (hx : ∀ t config, x.entries t = some config → config = x.routing.getRegionConfig t)
    (hc : c.Current x.routing) : c'.Current x.routing := by
  cases h with
  | hit h => exact hx _ _ h
  | readTenant h => exact (Routing.getRegionConfig_of_row h).symm
  | noTenant h => exact h
  | readGlobal => exact (Routing.getRegionConfig_of_no_row hc).symm
  | readGlobalOnly => rfl
  | store => exact hc
  | @resolve t config =>
    have hconfig : config = x.routing.getRegionConfig t := hc
    rw [hconfig]
    exact (Routing.resolveEngine_eq_route _ _).symm
  | _ => trivial

/-- What is known while no writer is under way: the rows stay as they are, and a reader that started
with no writer under way finds them. -/
structure RegionCalls.Steady (r : Routing) (i : ι) (c : RegionCalls ι) : Prop where
  /-- The rows stay as they are. -/
  routing : c.shared.routing = r
  /-- No writer starts. -/
  quiet : c.Quiet
  /-- The cache is right. -/
  cacheOk : c.CacheOk
  /-- The reader has found what the rows say. -/
  current : (c.locals i).Current r

/-- **One step while no writer is under way.** -/
theorem ReaderStep.steady {r : Routing} {i j : ι} {c : RegionCalls ι} {x' : RegionCache}
    {t' : RegionCall} (hc : c.Steady r i) (h : ReaderStep CurrentStore c j x' t') :
    RegionCalls.Steady r i (c.set j x' t') := by
  obtain ⟨hstore, hreader⟩ := h
  obtain ⟨hrouting, hwriting⟩ := hstore.1.reader hreader
  refine ⟨hrouting.trans hc.routing, ?_, hstore.cacheOk hc.cacheOk, ?_⟩
  · intro k
    by_cases hk : k = j
    · rw [hk, Config.set_locals_self]
      exact hwriting
    · rw [Config.set_locals_ne c x' t' hk]
      exact hc.quiet k
  · by_cases hij : i = j
    · subst hij
      have hcurrent := hc.current
      rw [← hc.routing] at hcurrent ⊢
      rw [Config.set_locals_self]
      exact hstore.1.current (hc.cacheOk.resolve_left hc.quiet.not_clearing) hcurrent
    · rw [Config.set_locals_ne c x' t' hij]
      exact hc.current

/-- **Routing is fresh** as long as no reader stores a row that has been replaced, unless a writer
has committed and has yet to clear the cache.  Then a `resolve_engine` that starts while no
`set_region_config` is under way, and goes on while none starts, resolves by the committed rows. -/
theorem routing_fresh_of_current {c₀ c d : RegionCalls ι} {l l' : List RegionCall}
    (hinit : c₀.Initial) (h : Trace CurrentStore c₀ l c) (hquiet : c.Quiet) {i : ι}
    {t : Option Str} (hi : c.locals i = .resolving t)
    (hd : Trace (ReaderStep CurrentStore) c l' d) :
    ∀ engine, d.locals i = .resolved t engine → engine = c.shared.routing.resolveEngine t := by
  intro engine hresolved
  have hsteady : c.Steady c.shared.routing i := by
    refine ⟨rfl, hquiet, hinit.cacheOk h, ?_⟩
    rw [hi]
    trivial
  have hcurrent := (hd.invariant (fun _ _ _ _ ↦ ReaderStep.steady) hsteady).current
  rwa [hresolved] at hcurrent

/-! ### A stale row

A reader finds that a tenant has no region and is overtaken by a writer; what it then stores is
found by every call that comes after. -/

/-- A default store, a region with a file, and no tenant assigned to it yet. -/
def euRouting : Routing := ⟨"store.db".toList, [], [("eu".toList, "eu.db".toList)]⟩

/-- The tenant is assigned to the region. -/
def acmeRouting : Routing :=
  { euRouting with regionConfigs := [⟨some "acme".toList, "eu".toList⟩] }

/-- A reader, a writer and another reader, and nothing in the cache. -/
def staleInit : RegionCalls (Fin 3) :=
  ⟨⟨euRouting, fun _ ↦ none⟩, fun i ↦
    if i = 1 then .setting (some "acme".toList) "eu".toList else .resolving (some "acme".toList)⟩

theorem staleInit_initial : staleInit.Initial :=
  ⟨fun _ ↦ rfl, by decide⟩

/-- The cache after the reader has stored that there is no row. -/
def staleCache : RegionCache :=
  ⟨acmeRouting, Function.update (fun _ ↦ none) (some "acme".toList) (some none)⟩

/-- **A row that was replaced stays in the cache.**  The writer has returned and no other is under
way, and a call that starts now resolves to the default store. -/
theorem stale_resolve : ∃ (c d : RegionCalls (Fin 3)) (l : List RegionCall),
    Steps RegionStep staleInit c ∧ c.Quiet ∧
      c.locals 1 = .configured (some "acme".toList) "eu".toList ∧
      c.locals 2 = .resolving (some "acme".toList) ∧
      Trace (ReaderStep fun e i ↦ RegionStep e.shared (e.locals i)) c l d ∧
      d.locals 2 = .resolved (some "acme".toList) (.ok "store.db".toList) ∧
      c.shared.routing.resolveEngine (some "acme".toList) = .ok "eu.db".toList := by
  let acme : Option Str := some "acme".toList
  let start : RegionCache := ⟨euRouting, fun _ ↦ none⟩
  have hmiss : RegionStep start (.resolving acme) start (.missed acme) := .miss rfl
  have hnone : RegionStep start (.missed acme) start (.unassigned "acme".toList) := .noTenant rfl
  have hglobal : RegionStep start (.unassigned "acme".toList) start (.read acme none) := .readGlobal
  have hlook : RegionStep start (.setting acme "eu".toList) start (.looked acme "eu".toList none) :=
    .look
  have hcommit : RegionStep start (.looked acme "eu".toList none) ⟨acmeRouting, fun _ ↦ none⟩
    (.committed acme "eu".toList) := .commit
  have hclear : RegionStep ⟨acmeRouting, fun _ ↦ none⟩ (.committed acme "eu".toList)
    ⟨acmeRouting, fun _ ↦ none⟩ (.configured acme "eu".toList) := .clear
  have hstore : RegionStep ⟨acmeRouting, fun _ ↦ none⟩ (.read acme none) staleCache
    (.got acme none) := .store
  have hhit : RegionStep staleCache (.resolving acme) staleCache (.got acme none) :=
    .hit (by simp [staleCache, acme])
  have hresolve : RegionStep staleCache (.got acme none) staleCache
    (.resolved acme (.ok "store.db".toList)) := .resolve
  have h0 : Steps RegionStep staleInit _ := .refl
  have h1 := Steps.thread h0 0 hmiss
  have h2 := Steps.thread h1 0 hnone
  have h3 := Steps.thread h2 0 hglobal
  have h4 := Steps.thread h3 1 hlook
  have h5 := Steps.thread h4 1 hcommit
  have h6 := Steps.thread h5 1 hclear
  have h7 := Steps.thread h6 0 hstore
  refine ⟨_, _, _, h7, fun i ↦ ?_, rfl, rfl,
    (Trace.nil.snoc (i := 2) ⟨hhit, rfl⟩).snoc (i := 2) ⟨hresolve, rfl⟩, rfl, rfl⟩
  match i with
  | 0 => rfl
  | 1 => rfl
  | 2 => rfl

/-- The same writer and the same call after it, while the first reader has yet to start. -/
theorem fresh_resolve : ∃ d : RegionCalls (Fin 3),
    d.locals 2 = .resolved (some "acme".toList) (.ok "eu.db".toList) ∧
      Except.ok "eu.db".toList = acmeRouting.resolveEngine (some "acme".toList) := by
  let acme : Option Str := some "acme".toList
  let row : RegionConfig := ⟨acme, "eu".toList⟩
  let start : RegionCache := ⟨euRouting, fun _ ↦ none⟩
  let after : RegionCache := ⟨acmeRouting, fun _ ↦ none⟩
  have hlook : RegionStep start (.setting acme "eu".toList) start (.looked acme "eu".toList none) :=
    .look
  have hcommit : RegionStep start (.looked acme "eu".toList none) after
    (.committed acme "eu".toList) := .commit
  have hclear : RegionStep after (.committed acme "eu".toList) after
    (.configured acme "eu".toList) := .clear
  have hmiss : RegionStep after (.resolving acme) after (.missed acme) := .miss rfl
  have hread : RegionStep after (.missed acme) after (.read acme (some row)) := .readTenant rfl
  have hstore : RegionStep after (.read acme (some row))
    ⟨acmeRouting, Function.update after.entries acme (some (some row))⟩ (.got acme (some row)) :=
    .store
  have h1 := (Trace.nil : Trace CurrentStore staleInit [] _).snoc (i := 1)
    ⟨hlook, by rintro t config ⟨⟩⟩
  have h2 := h1.snoc (i := 1) ⟨hcommit, by rintro t config ⟨⟩⟩
  have h3 := h2.snoc (i := 1) ⟨hclear, by rintro t config ⟨⟩⟩
  let c : RegionCalls (Fin 3) := ((staleInit.set 1 start (.looked acme "eu".toList none)).set 1
    after (.committed acme "eu".toList)).set 1 after (.configured acme "eu".toList)
  have hquiet : c.Quiet := by
    intro i
    match i with
    | 0 => rfl
    | 1 => rfl
    | 2 => rfl
  have h4 := (Trace.nil : Trace (ReaderStep CurrentStore) c [] c).snoc (i := 2)
    ⟨⟨hmiss, by rintro t config ⟨⟩⟩, rfl⟩
  have h5 := h4.snoc (i := 2) ⟨⟨hread, by rintro t config ⟨⟩⟩, rfl⟩
  have h6 := h5.snoc (i := 2) ⟨⟨hstore, by rintro t config ⟨⟩; exact Or.inl rfl⟩, rfl⟩
  have h7 := h6.snoc (i := 2) ⟨⟨.resolve, by rintro t config ⟨⟩⟩, rfl⟩
  obtain ⟨d, l, hd, hresolved⟩ : ∃ d l, Trace (ReaderStep CurrentStore) c l d ∧
    d.locals 2 = .resolved acme (.ok "eu.db".toList) := ⟨_, _, h7, rfl⟩
  exact ⟨d, hresolved, routing_fresh_of_current staleInit_initial h3 hquiet rfl hd _ hresolved⟩

end WiseTraceLoom
