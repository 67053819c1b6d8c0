import WiseTraceLoom.Storage.Backlog

/-!
# Where the rows of a tenant may be

A residency policy says in which regions the data of which tenants may be, and which files are in
which regions.  `enqueue_append` resolves the engine when it is called: it looks up the region of
the tenant, in the cache or with two statements, and after that the file of the region.  The worker
writes to that engine whenever it gets to the item.  By then, and also between two of the look-ups,
the tenant may have been assigned another region, and the region may have been registered with
another file.

`rows_follow_policy` says that this breaks no policy: if every assignment that is ever in force, and
every registration, obeys the policy, the worker writes no row of a tenant to a file of a region
that is forbidden to it, in no run and under no failure.  A region without a file does not break a
policy: it raises, and nothing is stored.

A tenant that has no region of its own goes where the global row says.  The two rows are read by two
statements, so that a tenant that has just been assigned a region may still be routed by a global
row that is written after that; hence `ResidencyPolicy.unassigned`.
-/

set_option autoImplicit false

namespace WiseTraceLoom

open Interleaving

variable {ι : Type} [DecidableEq ι] {F : Fernet} {w w' : WriteQueue} {t t' : Job}

/-! ## Policies -/

/-- Which tenants' data may be in which regions, and which files are in which regions.  The region
`none` is that of the default store. -/
structure ResidencyPolicy where
  /-- The data of the tenant may be in the region. -/
  allows : Option Str → Option Str → Prop
  /-- The tenant may at times be without a region of its own. -/
  unassigned : Option Str → Prop
  /-- A row without a tenant always is. -/
  noTenant : unassigned none
  /-- The file is in the region. -/
  located : Option Str → Str → Prop

variable {P : ResidencyPolicy}

/-- The data of the tenant may be in the file. -/
def ResidencyPolicy.Permits (P : ResidencyPolicy) (tenantId : Option Str) (engine : Str) : Prop :=
  ∃ region, P.allows tenantId region ∧ P.located region engine

/-- The assignments and registrations in force obey the policy. -/
structure Routing.Obeys (r : Routing) (P : ResidencyPolicy) : Prop where
  /-- A tenant has been assigned a region that its data may be in. -/
  own : ∀ t row, r.row (some t) = some row → P.allows (some t) (some row.region)
  /-- Or it has none, and may have none. -/
  unassigned : ∀ t, r.row (some t) = none → P.unassigned (some t)
  /-- The data of tenants without a region may be where the global row says. -/
  everyone : ∀ t, P.unassigned t → P.allows t ((r.row none).map RegionConfig.region)
  /-- The default store is where it is to be. -/
  default : P.located none r.defaultPath
  /-- And so is the file of a region. -/
  paths : ∀ region path, r.getRegionDbPath region = some path → P.located (some region) path

/-- So do the rows that the cache has kept. -/
structure RegionCache.Obeys (x : RegionCache) (P : ResidencyPolicy) : Prop where
  /-- What is in force obeys the policy. -/
  routing : x.routing.Obeys P
  /-- What was in force has done so. -/
  entries : ∀ t config, x.entries t = some config → P.allows t (config.map RegionConfig.region)

/-- A call that has found a region or an engine for a tenant has found one that is allowed. -/
def RegionCall.Obeys (P : ResidencyPolicy) : RegionCall → Prop
  | .unassigned t => P.unassigned (some t)
  | .read t config => P.allows t (config.map RegionConfig.region)
  | .got t config => P.allows t (config.map RegionConfig.region)
  | .resolved t (.ok engine) => P.Permits t engine
  | _ => True

/-- The same of a call of `enqueue_append`, and of any other. -/
def Job.Obeys (P : ResidencyPolicy) : Job → Prop
  | .enqueue (.resolving _ c) => c.Obeys P
  | .enqueue (.resolved a engine) => P.Permits a.tenantId engine
  | .region c => c.Obeys P
  | _ => True

/-! ## Steps -/

/-- The file of a region that is allowed is permitted, when it is looked up. -/
theorem Routing.Obeys.route {r : Routing} (h : r.Obeys P) {t : Option Str}
    {config : Option RegionConfig} (hconfig : P.allows t (config.map RegionConfig.region)) :
    (RegionCall.resolved t (r.route t config)).Obeys P := by
  cases config with
  | none => exact ⟨none, hconfig, h.default⟩
  | some row =>
    cases hpath : r.getRegionDbPath row.region with
    | none =>
      simp only [Routing.route, hpath]
      trivial
    | some path =>
      simp only [Routing.route, hpath]
      exact ⟨some row.region, hconfig, h.paths _ _ hpath⟩

/-- **A step of `resolve_engine` or `set_region_config`** keeps the policy, in the cache as well. -/
theorem RegionStep.obeys {x x' : RegionCache} {c c' : RegionCall} (h : RegionStep x c x' c')
    (hx : x.Obeys P) (hc : c.Obeys P) (hrouting : x'.routing.Obeys P) :
    x'.Obeys P ∧ c'.Obeys P := by
  cases h with
  | hit h => exact ⟨hx, hx.entries _ _ h⟩
  | readTenant h => exact ⟨hx, hx.routing.own _ _ h⟩
  | noTenant h => exact ⟨hx, hx.routing.unassigned _ h⟩
  | readGlobal => exact ⟨hx, hx.routing.everyone _ hc⟩
  | readGlobalOnly => exact ⟨hx, hx.routing.everyone _ P.noTenant⟩
  | store =>
    refine ⟨⟨hx.routing, fun t config hentry ↦ ?_⟩, hc⟩
    simp only [Function.update_apply] at hentry
    split_ifs at hentry with ht
    · rw [ht, ← Option.some.inj hentry]
      exact hc
    · exact hx.entries t config hentry
  | resolve => exact ⟨hx, hx.routing.route hc⟩
  | commit => exact ⟨⟨hrouting, hx.entries⟩, trivial⟩
  | clear => exact ⟨⟨hx.routing, nofun⟩, trivial⟩
  | _ => exact ⟨hx, trivial⟩

/-- A step of one thread, after which what is in force obeys the policy. -/
def ObedientStep (F : Fernet) (P : ResidencyPolicy) (w : WriteQueue) (t : Job) (w' : WriteQueue)
    (t' : Job) : Prop := WriteStep F w t w' t' ∧ w'.regions.routing.Obeys P

/-- **A step keeps the policy**, for the items that are accepted and for the calls under way. -/
theorem ObedientStep.obeys (h : ObedientStep F P w t w' t') (hregions : w.regions.Obeys P)
    (haccepted : ∀ e ∈ w.accepted, P.Permits e.tenantId e.engine) (ht : t.Obeys P) :
    w'.regions.Obeys P ∧ (∀ e ∈ w'.accepted, P.Permits e.tenantId e.engine) ∧ t'.Obeys P := by
  obtain ⟨h, hrouting⟩ := h
  cases h with
  | enqueue h =>
    cases h with
    | region h =>
      obtain ⟨hregions', hc'⟩ := h.obeys hregions ht hrouting
      exact ⟨hregions', haccepted, hc'⟩
    | resolved => exact ⟨hregions, haccepted, ht⟩
    | @put a engine =>
      refine ⟨hregions, fun e he ↦ ?_, trivial⟩
      rcases List.mem_append.mp he with he | he
      · exact haccepted e he
      · rw [List.mem_singleton.mp he]
        exact ht
    | @lookNone a inside => cases inside <;> exact ⟨hregions, haccepted, trivial⟩
    | @alive a inside => cases inside <;> exact ⟨hregions, haccepted, trivial⟩
    | @dead a inside => cases inside <;> exact ⟨hregions, haccepted, trivial⟩
    | @release a exception => cases exception <;> exact ⟨hregions, haccepted, trivial⟩
    | _ => exact ⟨hregions, haccepted, trivial⟩
  | worker h => cases h <;> exact ⟨hregions, haccepted, trivial⟩
  | @startRegion c hfresh =>
    refine ⟨hregions, haccepted, ?_⟩
    cases c <;> trivial
  | region h =>
    obtain ⟨hregions', hc'⟩ := h.obeys hregions ht hrouting
    exact ⟨hregions', haccepted, hc'⟩
  | route x' hentries =>
    refine ⟨⟨hrouting, fun t config hentry ↦ ?_⟩, haccepted, trivial⟩
    rcases hentries t with hsame | hnone
    · exact hregions.entries t config (hsame ▸ hentry)
    · cases hnone.symm.trans hentry
  | _ => exact ⟨hregions, haccepted, trivial⟩

/-- **The policy holds of the items after every run.** -/
theorem accepted_obey {c d : Writers ι} (hregions : c.shared.regions.Obeys P)
    (haccepted : ∀ e ∈ c.shared.accepted, P.Permits e.tenantId e.engine)
    (hlocals : ∀ i, (c.locals i).Obeys P) (hrun : Steps (ObedientStep F P) c d) :
    ∀ e ∈ d.shared.accepted, P.Permits e.tenantId e.engine := by
  let I (d : Writers ι) : Prop := d.shared.regions.Obeys P ∧
    (∀ e ∈ d.shared.accepted, P.Permits e.tenantId e.engine) ∧ ∀ i, (d.locals i).Obeys P
  refine (hrun.invariant (I := I) ?_ ⟨hregions, haccepted, hlocals⟩).2.1
  rintro d i w' t' ⟨hregions, haccepted, hlocals⟩ hstep
  obtain ⟨hregions', haccepted', ht'⟩ := hstep.obeys hregions haccepted (hlocals i)
  exact ⟨hregions', haccepted', Config.forall_locals (P := fun _ (t : Job) ↦ t.Obeys P) ht'
    fun j _ ↦ hlocals j⟩

/-! ## Rows -/

/-- A row that the worker has written is that of an item that was accepted for this store. -/
theorem Accounts.exists_item {x : WorkerCall} {rows : List (QueueItem × StorageCommit)}
    (h : Accounts w x rows) {engine : Str} {row : StorageCommit} {n : ℕ}
    (hrow : (row, some n) ∈ w.written engine) :
    ∃ e ∈ w.accepted, e.engine = engine ∧ e.args.Writes row := by
  have htagged : (row, n) ∈ w.tagged engine := List.mem_filterMap.mpr ⟨_, hrow, rfl⟩
  rw [h.tagged] at htagged
  obtain ⟨⟨e, row'⟩, hmem, heq⟩ := List.mem_map.mp htagged
  obtain ⟨hmem, hengine⟩ := List.mem_filter.mp hmem
  obtain ⟨rfl, -⟩ := Prod.mk.inj heq
  exact ⟨e, h.sublist.subset (List.mem_map_of_mem hmem), of_decide_eq_true hengine,
    h.writes _ hmem⟩

/-- **The rows of the background writer follow the policy.**  Take any run in which whatever
assigns tenants to regions, and regions to files, obeys the policy as long as it is in force.  In
whichever order callers, workers and others take their steps, whatever the cache has kept and
whichever of them fail, each row that a worker has written to a store is of a tenant whose data may
be there. -/
theorem rows_follow_policy {old : Fleet ι Str} {site : ι → Str} {routing : Routing}
    (hold : Steps (FleetStep F) (Fleet.init id site) old) (hrouting : routing.Obeys P)
    {c : Writers ι} (hrun : Steps (ObedientStep F P) (Writers.init ι old.shared routing) c)
    {engine : Str} {row : StorageCommit} {n : ℕ}
    (hrow : (row, some n) ∈ c.shared.written engine) : P.Permits row.tenantId engine := by
  have hreachable : c.Reachable F :=
    ⟨old, site, routing, hold, hrun.mono fun _ _ _ _ h ↦ h.1⟩
  obtain ⟨-, x, rows, -, hw⟩ := hreachable.accounts
  obtain ⟨e, he, rfl, hwrites⟩ := hw.exists_item hrow
  rw [hwrites.tenantId]
  exact accepted_obey (c := Writers.init ι old.shared routing) ⟨hrouting, nofun⟩
    (fun e he ↦ absurd he List.not_mem_nil) (fun _ ↦ trivial) hrun e he

/-! ### A tenant that moves

The tenant is moved to another region after its region was looked up, and before the file of the
region is. -/

/-- The region with which the tenant starts, and the other one. -/
def euAndUs (region : Str) : Routing :=
  ⟨"store.db".toList, [⟨some "acme".toList, region⟩],
    [("eu".toList, "eu.db".toList), ("us".toList, "us.db".toList)]⟩

/-- The tenant has to be in one of the two regions. -/
def euOrUs : ResidencyPolicy where
  allows t region := t = some "acme".toList → region = some "eu".toList ∨ region = some "us".toList
  unassigned t := t ≠ some "acme".toList
  noTenant := nofun
  located region engine :=
    region = none ∨ region = some "eu".toList ∧ engine = "eu.db".toList ∨
      region = some "us".toList ∧ engine = "us.db".toList

theorem euAndUs_obeys {region : Str} (h : region = "eu".toList ∨ region = "us".toList) :
    (euAndUs region).Obeys euOrUs where
  own := by
    rintro t row hrow -
    have hregion : row = ⟨some "acme".toList, region⟩ :=
      List.mem_singleton.mp (List.mem_of_find?_eq_some hrow)
    rw [hregion]
    exact h.imp (congrArg some) (congrArg some)
  unassigned := by
    intro t hnone hacme
    exact List.find?_eq_none.mp hnone _ (List.mem_singleton_self _) (decide_eq_true hacme.symm)
  everyone := fun t ht hacme ↦ absurd hacme ht
  default := by simp only [euOrUs, true_or]
  paths := by
    intro region path hpath
    obtain ⟨p, hp, rfl⟩ := Option.map_eq_some_iff.mp hpath
    have hname : p.1 = region := by simpa using List.find?_some hp
    rw [← hname]
    rcases List.mem_pair.mp (List.mem_of_find?_eq_some hp) with rfl | rfl
    · exact Or.inr (Or.inl ⟨rfl, rfl⟩)
    · exact Or.inr (Or.inr ⟨rfl, rfl⟩)

/-- The row is in the region that the tenant has left. -/
theorem rows_follow_policy_acme : ∃ (c : Writers (Fin 3)) (row : StorageCommit),
    row.tenantId = some "acme".toList ∧ c.shared.regions.routing = euAndUs "us".toList ∧
      c.shared.written "eu.db".toList = [(row, some 0)] ∧
      euOrUs.Permits row.tenantId "eu.db".toList := by
  let fernet : Fernet := ⟨fun _ _ p ↦ p, fun _ t ↦ some t⟩
  let acme : Option Str := some "acme".toList
  let eu := euAndUs "eu".toList
  let us := euAndUs "us".toList
  let old : Fleet (Fin 3) Str := Fleet.init id fun _ ↦ []
  let args : EnqueueArgs := ⟨"spans".toList, "span".toList, [], acme⟩
  let t : AppendTask := ⟨"spans".toList, "span".toList, acme, 20, []⟩
  let row := (t.commit 1 none noon).column
  let config : RegionConfig := ⟨acme, "eu".toList⟩
  let empty : Option Str → Option (Option RegionConfig) := fun _ ↦ none
  let entries := Function.update empty acme (some (some config))
  have heu : eu.Obeys euOrUs := euAndUs_obeys (.inl rfl)
  have hus : us.Obeys euOrUs := euAndUs_obeys (.inr rfl)
  have hmiss : RegionStep ⟨eu, empty⟩ (.resolving acme) ⟨eu, empty⟩ (.missed acme) := .miss rfl
  have hread : RegionStep ⟨eu, empty⟩ (.missed acme) ⟨eu, empty⟩ (.read acme (some config)) :=
    .readTenant rfl
  have hstore : RegionStep ⟨eu, empty⟩ (.read acme (some config)) ⟨eu, entries⟩
    (.got acme (some config)) := .store
  have hresolve : RegionStep ⟨us, entries⟩ (.got acme (some config)) ⟨us, entries⟩
    (.resolved acme (.ok "eu.db".toList)) := .resolve
  have hcommit : AppendStep (Store.create "eu.db".toList) (.stamped t 0 1 none noon) _
    (.committed row) := .commit rfl
  have hstep {c d : Writers (Fin 3)} (h : Steps (ObedientStep fernet euOrUs) c d) (i : Fin 3)
      {w' : WriteQueue} {t' : Job} (ht : WriteStep fernet d.shared (d.locals i) w' t')
      (hobeys : w'.regions.routing.Obeys euOrUs) :
      Steps (ObedientStep fernet euOrUs) c (d.set i w' t') := h.thread i ⟨ht, hobeys⟩
  have h0 : Steps (ObedientStep fernet euOrUs) (Writers.init (Fin 3) old.shared eu) _ := .refl
  have h1 := hstep h0 0 (.call args) heu
  have h2 := hstep h1 0 (.enqueue (.lookNone rfl)) heu
  have h3 := hstep h2 0 (.enqueue (.acquire rfl)) heu
  have h4 := hstep h3 0 (.enqueue (.lookNone rfl)) heu
  have h5 := hstep h4 0 (.enqueue .create) heu
  have h6 := hstep h5 0 (.enqueue .launch) heu
  have h7 := hstep h6 1 (.begin (k := 0) rfl) heu
  have h8 := hstep h7 0 (.enqueue (.launched (by decide))) heu
  have h9 := hstep h8 0 (.enqueue .release) heu
  have h10 := hstep h9 0 (.enqueue .resolve) heu
  have h11 := hstep h10 0 (.enqueue (.region hmiss)) heu
  have h12 := hstep h11 0 (.enqueue (.region hread)) heu
  have h13 := hstep h12 0 (.enqueue (.region hstore)) heu
  -- the tenant is moved, and then the file of its old region is looked up
  have h14 := hstep h13 2 (.route ⟨us, entries⟩ fun _ ↦ .inl rfl) hus
  have h15 := hstep h14 0 (.enqueue (.region hresolve)) hus
  have h16 := hstep h15 0 (.enqueue .resolved) hus
  have h17 := hstep h16 0 (.enqueue (.put (by decide))) hus
  have h18 := hstep h17 1 (.worker (.get rfl)) hus
  have h19 := hstep h18 1 (.worker (.append (.mask (fun p ↦ .ok (.dict p)) rfl))) hus
  have h20 := hstep h19 1 (.worker (.append (.readVersion (by decide)))) hus
  have h21 := hstep h20 1 (.worker (.append (.readPrev rfl))) hus
  have h22 := hstep h21 1 (.worker (.append (.stamp noon))) hus
  have h23 := hstep h22 1 (.worker (.append hcommit)) hus
  obtain ⟨c, hc, hrouting, hwritten⟩ : ∃ c, Steps (ObedientStep fernet euOrUs)
      (Writers.init (Fin 3) old.shared eu) c ∧ c.shared.regions.routing = us ∧
        c.shared.written "eu.db".toList = [(row, some 0)] := ⟨_, h23, rfl, rfl⟩
  exact ⟨c, row, rfl, hrouting, hwritten,
    rows_follow_policy .refl heu hc (hwritten ▸ List.mem_singleton_self _)⟩

end WiseTraceLoom
