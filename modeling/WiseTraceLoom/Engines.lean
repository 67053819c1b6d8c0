import WiseTraceLoom.Lib.LockedMemo
import WiseTraceLoom.Lib.PurePath

/-!
# Engines

All tables of one SQLite file are reached through one engine, which `_get_engine` makes on first use
and keeps by the path it was asked for.  Making an engine takes several steps, any of which may
raise: the directory of the file, the engine itself, and `create_all`, which creates the tables.
It is done under a lock, since threads that come first together would otherwise create the tables of
one file at the same time.

* `engines_shared` — whatever the interleaving and whatever fails, all callers with one path work
  with one engine, it was made for that path, and its tables are there when they get it.
-/

set_option autoImplicit false

namespace WiseTraceLoom

open Interleaving LockedMemo

/-- What an engine is made with. -/
structure Engine where
  /-- Its URL. -/
  url : Str
  /-- How many seconds a connection waits for the lock of the file. -/
  timeout : ℕ
  /-- The connections it keeps. -/
  poolSize : ℕ
  /-- The connections it may open on top of them. -/
  maxOverflow : ℕ
  /-- What every connection executes first. -/
  pragmas : List Str
  deriving DecidableEq

/-- The engine for a path. -/
def Engine.ofPath (dbPath : Str) : Engine where
  url := "sqlite:///".toList ++ (PurePath.parse dbPath).toStr
  timeout := 30
  poolSize := 20
  maxOverflow := 20
  pragmas := ["PRAGMA journal_mode=WAL".toList, "PRAGMA synchronous=NORMAL".toList]

/-- What has been made so far. -/
structure EngineWorld where
  /-- The directories. -/
  directories : List PurePath
  /-- The engines, each with the path it was made for; an engine is its place in this list. -/
  engines : List (Str × Engine)
  /-- The engines whose tables were created. -/
  created : List ℕ

/-- How far an engine is. -/
inductive Opening where
  | looked
  /-- The directory is there. -/
  | prepared
  /-- The engine is there, and its listener is. -/
  | made (engine : ℕ)
  /-- Its tables were created. -/
  | ready (engine : ℕ)

/-- One step of making the engine for a path. -/
inductive OpeningStep (dbPath : Str) : EngineWorld → Opening → EngineWorld → Opening → Prop
  | mkdir {w : EngineWorld} : OpeningStep dbPath w .looked
      { w with directories := w.directories ++ [(PurePath.parse dbPath).parent] } .prepared
  | createEngine {w : EngineWorld} : OpeningStep dbPath w .prepared
      { w with engines := w.engines ++ [(dbPath, Engine.ofPath dbPath)] } (.made w.engines.length)
  | createAll {w : EngineWorld} {n : ℕ} : OpeningStep dbPath w (.made n)
      { w with created := w.created ++ [n] } (.ready n)

/-- `_get_engine`, apart from the lock and `_engine_cache`. -/
def engineMaker : Maker Str ℕ Opening EngineWorld where
  start := .looked
  step := OpeningStep
  result
    | .ready n => some n
    | _ => none

/-- A call of `_get_engine`. -/
abbrev EngineCall := Call Str ℕ Opening

/-- Any number of them. -/
abbrev EngineCalls (ι : Type) := Config ι (State Str ℕ EngineWorld) EngineCall

/-- An engine was made for a path, in a directory that is there. -/
structure EngineWorld.MadeFor (w : EngineWorld) (dbPath : Str) (n : ℕ) : Prop where
  /-- The directory. -/
  directory : (PurePath.parse dbPath).parent ∈ w.directories
  /-- The engine. -/
  engine : w.engines[n]? = some (dbPath, Engine.ofPath dbPath)

/-- It is ready for use: its tables were created. -/
def EngineWorld.ReadyFor (dbPath : Str) (w : EngineWorld) (n : ℕ) : Prop :=
  w.MadeFor dbPath n ∧ n ∈ w.created

/-- What is known of an engine on the way. -/
def Opening.Ok (dbPath : Str) (w : EngineWorld) : Opening → Prop
  | .looked => True
  | .prepared => (PurePath.parse dbPath).parent ∈ w.directories
  | .made n => w.MadeFor dbPath n
  | .ready n => w.ReadyFor dbPath n

/-- Nothing is taken away. -/
structure EngineWorld.Grows (w w' : EngineWorld) : Prop where
  /-- No directory. -/
  directories : w.directories ⊆ w'.directories
  /-- No engine. -/
  engines : w.engines <+: w'.engines
  /-- No tables. -/
  created : w.created ⊆ w'.created

theorem OpeningStep.grows {dbPath : Str} {w w' : EngineWorld} {b b' : Opening}
    (h : OpeningStep dbPath w b w' b') : w.Grows w' := by
  cases h with
  | mkdir => exact ⟨List.subset_append_left _ _, List.prefix_rfl, List.Subset.refl _⟩
  | createEngine => exact ⟨List.Subset.refl _, List.prefix_append _ _, List.Subset.refl _⟩
  | createAll => exact ⟨List.Subset.refl _, List.prefix_rfl, List.subset_append_left _ _⟩

theorem EngineWorld.MadeFor.grows {w w' : EngineWorld} {dbPath : Str} {n : ℕ}
    (h : w.MadeFor dbPath n) (hgrows : w.Grows w') : w'.MadeFor dbPath n := by
  refine ⟨hgrows.directories h.directory, ?_⟩
  obtain ⟨hlt, hget⟩ := List.getElem?_eq_some_iff.mp h.engine
  exact List.getElem?_eq_some_iff.mpr
    ⟨hlt.trans_le hgrows.engines.length_le, hget ▸ (hgrows.engines.getElem hlt).symm⟩

/-- The steps lead to an engine that is ready. -/
theorem engineMaker_keeps :
    Keeps engineMaker (fun dbPath w b ↦ b.Ok dbPath w) EngineWorld.ReadyFor where
  start _ _ := trivial
  step {dbPath w b w' b'} hb h := by
    have hgrows := OpeningStep.grows h
    cases h with
    | mkdir => exact List.mem_append_right _ List.mem_cons_self
    | createEngine => exact ⟨hb, List.getElem?_concat_length⟩
    | createAll =>
      exact ⟨EngineWorld.MadeFor.grows hb hgrows, List.mem_append_right _ List.mem_cons_self⟩
  result {dbPath w b v} hb h := by
    cases b with
    | ready n => rwa [← Option.some.inj h]
    | looked | prepared | made n => cases h
  keep h hw := ⟨hw.1.grows (OpeningStep.grows h), (OpeningStep.grows h).created hw.2⟩

/-- The process has started: no engine is known, and every call is about to start. -/
structure EngineCalls.Initial {ι : Type} (c : EngineCalls ι) : Prop where
  /-- The lock is free. -/
  locked : c.shared.locked = false
  /-- `_engine_cache` is empty. -/
  memo : ∀ dbPath, c.shared.memo dbPath = none
  /-- Nothing has been made. -/
  world : c.shared.world = ⟨[], [], []⟩
  /-- The calls are about to start. -/
  calling : ∀ i, ∃ dbPath, c.locals i = .calling dbPath

/-- **One engine for each path.**  In any interleaving of calls of `_get_engine`, any step of which
may raise, all calls that have returned for one path have returned the same engine; it was made for
that path and for no other, its directory is there and its tables were created.  At no time are two
calls making an engine, and a call that has raised does not leave the lock behind. -/
theorem engines_shared {ι : Type} [DecidableEq ι] {c₀ c : EngineCalls ι} (hinit : c₀.Initial)
    (h : Steps (Step engineMaker) c₀ c) :
    (∀ i j dbPath n m, c.locals i = .returned dbPath n → c.locals j = .returned dbPath m →
      n = m) ∧
    (∀ i dbPath n, c.locals i = .returned dbPath n → c.shared.world.ReadyFor dbPath n) ∧
    (∀ i j p q n, c.locals i = .returned p n → c.locals j = .returned q n → p = q) ∧
    (∀ i j, (c.locals i).inside = true → (c.locals j).inside = true → i = j) ∧
    (c.shared.locked = true → ∃ i, (c.locals i).inside = true) := by
  have hok : Ok (fun dbPath w b ↦ b.Ok dbPath w) EngineWorld.ReadyFor c :=
    Ok.steps engineMaker_keeps h (ok_init hinit.locked hinit.memo hinit.calling)
  refine ⟨fun i j dbPath n m ↦ hok.agree, fun i dbPath n ↦ hok.whole, ?_, hok.alone, hok.held⟩
  intro i j p q n hi hj
  have hp := (hok.whole hi).1.engine
  have hq := (hok.whole hj).1.engine
  exact congrArg Prod.fst (Option.some.inj (hp.symm.trans hq))

/-- Every call is for one path. -/
def samePathCalls : EngineCalls ℕ :=
  ⟨⟨false, fun _ ↦ none, ⟨[], [], []⟩⟩, fun _ ↦ .calling "a.db".toList⟩

/-- The first call fails to create the tables, the second one makes another engine, and the third
one gets that one too. -/
theorem engines_shared_retry : ∃ c : EngineCalls ℕ,
    c.locals 1 = .returned "a.db".toList 1 ∧ c.locals 2 = .returned "a.db".toList 1 ∧
      ∀ n m, c.locals 1 = .returned "a.db".toList n → c.locals 2 = .returned "a.db".toList m →
        n = m := by
  let p : Str := "a.db".toList
  let dir : PurePath := (PurePath.parse p).parent
  let memo : Str → Option ℕ := fun _ ↦ none
  let w₁ : EngineWorld := ⟨[dir], [], []⟩
  let w₂ : EngineWorld := ⟨[dir], [(p, .ofPath p)], []⟩
  let w₃ : EngineWorld := ⟨[dir, dir], [(p, .ofPath p)], []⟩
  let w₄ : EngineWorld := ⟨[dir, dir], [(p, .ofPath p), (p, .ofPath p)], []⟩
  let w₅ : EngineWorld := ⟨[dir, dir], [(p, .ofPath p), (p, .ofPath p)], [1]⟩
  have hmiss (w : EngineWorld) : Step engineMaker ⟨true, memo, w⟩ (.entered p) ⟨true, memo, w⟩
    (.making p .looked) := .miss rfl
  have hmake {w : EngineWorld} {b b' : Opening} (w' : EngineWorld) (h : OpeningStep p w b w' b') :
    Step engineMaker ⟨true, memo, w⟩ (.making p b) ⟨true, memo, w'⟩ (.making p b') := .make h
  have h0 : Steps (Step engineMaker) samePathCalls samePathCalls := .refl
  have h1 := (((h0.thread 0 (.acquire rfl)).thread 0 (hmiss _)).thread 0
    (hmake w₁ .mkdir)).thread 0 (hmake w₂ .createEngine)
  have h2 := (h1.thread 0 .fail).thread 0 .abandon
  have h3 := (((h2.thread 1 (.acquire rfl)).thread 1 (hmiss _)).thread 1
    (hmake w₃ .mkdir)).thread 1 (hmake w₄ .createEngine)
  have h4 := ((h3.thread 1 (hmake w₅ .createAll)).thread 1 (.store rfl)).thread 1 .release
  have h5 := ((h4.thread 2 (.acquire rfl)).thread 2 (.hit (v := 1) rfl)).thread 2
    .release
  have hinit : samePathCalls.Initial := ⟨rfl, fun _ ↦ rfl, rfl, fun _ ↦ ⟨p, rfl⟩⟩
  exact ⟨_, rfl, rfl, fun n m ↦ (engines_shared hinit h5).1 1 2 p n m⟩

end WiseTraceLoom
