import WiseTraceLoom.Settings

/-!
# Configuring the log

`configure` sets up `structlog` and, if the log goes to a file, puts a rotating handler on the root
logger of the process, where the host has handlers of its own.  It may be called again at any time,
and then takes back the handler of the call before it; reading the configuration, closing the old
handler and opening the file may all raise, each at a different point (`ConfigureFaults`).

`Logging` is what the process has at a moment: the root logger, every handler that was ever built
here with whether it was closed, and the variables of the module.  The host finds the handlers built
here on the root logger, and can close one or put one back that was taken away
(`HostEvent.Respects` says that it does not).

* `Logging.Ok.run` — every event, a call that raises or something the host does, keeps the
  invariant; `Logging.Tidy.run`, the same for what holds under a host that respects our handlers.
* `logging_handlers` — after any events the host has the handlers it would have had without this
  module, and of those that were built here only the active one is open.
-/

set_option autoImplicit false

namespace WiseTraceLoom

/-! ## The root logger -/

/-- A handler of the root logger. -/
inductive LogHandler where
  /-- One that was built here, by its number. -/
  | own (n : ℕ)
  | host (n : ℕ)
  deriving DecidableEq

/-- The number of a handler that was built here. -/
def LogHandler.own? : LogHandler → Option ℕ
  | .own n => some n
  | .host _ => none

/-- The number of a handler of the host. -/
def LogHandler.host? : LogHandler → Option ℕ
  | .own _ => none
  | .host n => some n

/-- A handler that was built here. -/
structure OwnHandler where
  /-- Its file. -/
  path : Str
  /-- How it rotates. -/
  handler : Handler

/-- What `structlog.configure` was called with. -/
structure Pipeline where
  /-- Is the output JSON? -/
  json : Bool
  /-- Does it go through the root logger, and not to the console? -/
  toFile : Bool
  deriving DecidableEq

/-- The log of the process. -/
structure Logging where
  /-- The handlers of the root logger. -/
  handlers : List LogHandler
  /-- Its level, 0 if it has none. -/
  level : ℕ
  /-- The handlers that were built here. -/
  built : List OwnHandler
  /-- Those that were closed. -/
  closed : List ℕ
  /-- `_active_file_handler`. -/
  active : Option ℕ
  /-- What `structlog` was configured with last. -/
  pipeline : Option Pipeline
  /-- `_configured`. -/
  configured : Bool

namespace Logging

/-- The process has started with some handlers of the host. -/
def start (hosts : List ℕ) (level : ℕ) : Logging :=
  ⟨hosts.map .host, level, [], [], none, none, false⟩

/-- The handlers on the root logger that were built here. -/
def ownHandlers (l : Logging) : List ℕ := l.handlers.filterMap LogHandler.own?

/-- The others. -/
def hostHandlers (l : Logging) : List ℕ := l.handlers.filterMap LogHandler.host?

/-! ## `configure` -/

/-- What raises in a call. -/
structure ConfigureFaults where
  /-- Reading the configuration. -/
  readConfig : Bool
  /-- Closing the old handler. -/
  close : Bool
  /-- Opening the file. -/
  openFile : Bool

/-- The arguments of `configure`. -/
structure ConfigureArgs where
  /-- Is the output JSON? -/
  jsonOutput : Bool := true
  /-- The file that is asked for. -/
  filePath : Option Str := none
  /-- Whose configuration is used. -/
  tenantId : Option Str := none

/-- Takes back the handler of the call before, and says whether that went well. -/
def detach (f : ConfigureFaults) (l : Logging) : Logging × Bool :=
  match l.active with
  | none => (l, true)
  | some n =>
    let l' := { l with handlers := l.handlers.erase (.own n) }
    if f.close then (l', false) else ({ l' with closed := l'.closed ++ [n], active := none }, true)

/-- Puts a handler on the root logger, and says whether that went well. -/
def attach (f : ConfigureFaults) (path : Str) (config : RotationConfig) (l : Logging) :
    Logging × Bool :=
  match if f.openFile then none else buildRotatingHandler config with
  | none => (l, false)
  | some handler =>
    let n := l.built.length
    ({ l with
        built := l.built ++ [⟨path, handler⟩]
        -- no level, or one above `INFO`
        level := if l.level = 0 ∨ 20 < l.level then 20 else l.level
        handlers := l.handlers ++ [.own n]
        active := some n }, true)

/-- `effective_file_path`. -/
def destination (s : Settings) (args : ConfigureArgs) : Option Str :=
  args.filePath.or (getRotationConfig s args.tenantId).logFilePath

/-- `configure`, and whether it has returned. -/
def configure (s : Settings) (args : ConfigureArgs) (f : ConfigureFaults) (l : Logging) :
    Logging × Bool :=
  if f.readConfig then (l, false)
  else
    match l.detach f with
    | (l, false) => (l, false)
    | (l, true) =>
      match destination s args with
      | none => ({ l with pipeline := some ⟨args.jsonOutput, false⟩, configured := true }, true)
      | some path =>
        match l.attach f path (getRotationConfig s args.tenantId).config with
        | (l, false) => (l, false)
        | (l, true) =>
          ({ l with pipeline := some ⟨args.jsonOutput, true⟩, configured := true }, true)

/-- `get_logger`, and whether it has returned. -/
def getLogger (s : Settings) (f : ConfigureFaults) (l : Logging) : Logging × Bool :=
  if l.configured then (l, true) else l.configure s {} f

/-! ## Events -/

/-- What the host does to the root logger and its handlers. -/
inductive HostEvent where
  /-- `addHandler`. -/
  | adds (h : LogHandler)
  /-- `removeHandler`. -/
  | removes (h : LogHandler)
  /-- It puts a list in the place of the handlers: an empty one, or one it has kept from before. -/
  | replaces (hs : List LogHandler)
  /-- It closes a handler that was built here. -/
  | closes (n : ℕ)
  /-- `setLevel`. -/
  | setsLevel (level : ℕ)

/-- Something that happens. -/
inductive Event where
  | configure (s : Settings) (args : ConfigureArgs) (f : ConfigureFaults)
  | getLogger (s : Settings) (f : ConfigureFaults)
  | host (e : HostEvent)

/-- Is there such a handler? -/
def has (l : Logging) : LogHandler → Bool
  | .own n => n < l.built.length
  | .host _ => true

/-- What becomes of the root logger. -/
def runHost (l : Logging) : HostEvent → Logging
  | .adds h =>
    if h ∈ l.handlers ∨ l.has h = false then l else { l with handlers := l.handlers ++ [h] }
  | .removes h => { l with handlers := l.handlers.erase h }
  | .replaces hs => { l with handlers := hs.filter l.has }
  | .closes n => if n < l.built.length then { l with closed := l.closed ++ [n] } else l
  | .setsLevel level => { l with level }

/-- What comes of an event. -/
def run (l : Logging) : Event → Logging
  | .configure s args f => (l.configure s args f).1
  | .getLogger s f => (l.getLogger s f).1
  | .host e => l.runHost e

/-- The handlers of the host, as it would have them without us. -/
def hostAlone (hosts : List ℕ) : Event → List ℕ
  | .host (.adds (.host n)) => if n ∈ hosts then hosts else hosts ++ [n]
  | .host (.removes (.host n)) => hosts.erase n
  | .host (.replaces hs) => hs.filterMap LogHandler.host?
  | _ => hosts

/-- The host puts none of our handlers on the root logger but the active one, and that one once, and
does not close it. -/
def HostEvent.Respects (l : Logging) : HostEvent → Prop
  | .adds (.own n) => l.active = some n
  | .replaces hs => hs.filterMap LogHandler.own? = [] ∨
      ∃ n, l.active = some n ∧ hs.filterMap LogHandler.own? = [n]
  | .closes n => l.active ≠ some n
  | _ => True

/-- The host respects our handlers whenever it does something. -/
def Respected (l : Logging) : List Event → Prop
  | [] => True
  | .host e :: events => e.Respects l ∧ Respected (l.runHost e) events
  | e :: events => Respected (l.run e) events

/-! ## The invariant -/

/-- Of the handlers that were built here all but the active one are closed. -/
structure Ok (l : Logging) : Prop where
  /-- What is on the root logger was built. -/
  attached : ∀ n ∈ l.ownHandlers, n < l.built.length
  /-- The active one was built. -/
  active : ∀ n, l.active = some n → n < l.built.length
  /-- All others are closed. -/
  closed : ∀ n, n < l.built.length → l.active = some n ∨ n ∈ l.closed
  /-- Only what was built is closed. -/
  built : ∀ n ∈ l.closed, n < l.built.length

/-- At most one handler that was built here is on the root logger. -/
structure Tidy (l : Logging) : Prop where
  /-- It is the active one. -/
  own : l.ownHandlers = [] ∨ ∃ n, l.active = some n ∧ l.ownHandlers = [n]
  /-- The active one is open. -/
  open_active : ∀ n, l.active = some n → n ∉ l.closed

/-- The handlers on the root logger that were built here, without the active one. -/
def others (l : Logging) : List ℕ :=
  match l.active with
  | none => l.ownHandlers
  | some n => l.ownHandlers.erase n

theorem Tidy.others {l : Logging} (h : l.Tidy) : l.others = [] := by
  rw [Logging.others]
  rcases h.own with hown | ⟨n, hn, hown⟩
  · rw [hown]
    cases l.active <;> rfl
  · rw [hn, hown]
    exact List.erase_cons_head n []

theorem ownHandlers_start (hosts : List ℕ) (level : ℕ) : (start hosts level).ownHandlers = [] := by
  refine List.filterMap_eq_nil_iff.mpr fun a ha ↦ ?_
  obtain ⟨n, -, rfl⟩ := List.mem_map.mp ha
  rfl

theorem ok_start (hosts : List ℕ) (level : ℕ) : (start hosts level).Ok where
  attached n hn := by
    rw [ownHandlers_start] at hn
    cases hn
  active n hn := by cases hn
  closed n hn := by cases hn
  built n hn := by cases hn

theorem tidy_start (hosts : List ℕ) (level : ℕ) : (start hosts level).Tidy where
  own := Or.inl (ownHandlers_start hosts level)
  open_active n hn := by cases hn

section

variable {α β : Type} [DecidableEq α] {f : α → Option β} {a : α}

/-- What is erased is missed by those who look for it, -/
theorem filterMap_erase_of_some [DecidableEq β] {b : β} (ha : f a = some b)
    (hinj : ∀ a', f a' = some b → a' = a) (l : List α) :
    (l.erase a).filterMap f = (l.filterMap f).erase b := by
  induction l with
  | nil => rfl
  | cons a' l ih =>
    by_cases haa : a' = a
    · subst haa
      rw [List.erase_cons_head, List.filterMap_cons_some ha, List.erase_cons_head]
    · rw [List.erase_cons_tail (by simpa using haa), List.filterMap_cons, List.filterMap_cons, ih]
      cases hfa : f a' with
      | none => rfl
      | some b' =>
        have hne : b' ≠ b := fun hbb ↦ haa (hinj a' (hbb ▸ hfa))
        exact (List.erase_cons_tail (by simpa using hne)).symm

/-- and by nobody else. -/
theorem filterMap_erase_of_none (ha : f a = none) (l : List α) :
    (l.erase a).filterMap f = l.filterMap f := by
  induction l with
  | nil => rfl
  | cons a' l ih =>
    by_cases haa : a' = a
    · subst haa
      rw [List.erase_cons_head, List.filterMap_cons_none ha]
    · rw [List.erase_cons_tail (by simpa using haa), List.filterMap_cons, List.filterMap_cons, ih]

end

theorem own?_eq_some {h : LogHandler} {n : ℕ} (hn : h.own? = some n) : h = .own n := by
  cases h with
  | own m => rw [Option.some.inj hn]
  | host m => cases hn

theorem host?_eq_some {h : LogHandler} {n : ℕ} (hn : h.host? = some n) : h = .host n := by
  cases h with
  | own m => cases hn
  | host m => rw [Option.some.inj hn]

theorem ownHandlers_erase_own (l : Logging) (n : ℕ) :
    (l.handlers.erase (.own n)).filterMap LogHandler.own? = l.ownHandlers.erase n :=
  filterMap_erase_of_some (f := LogHandler.own?) rfl (fun _ ↦ own?_eq_some) _

theorem mem_ownHandlers {l : Logging} {n : ℕ} : n ∈ l.ownHandlers ↔ .own n ∈ l.handlers := by
  rw [ownHandlers, List.mem_filterMap]
  exact ⟨fun ⟨_, hmem, hn⟩ ↦ own?_eq_some hn ▸ hmem, fun hmem ↦ ⟨_, hmem, rfl⟩⟩

theorem mem_hostHandlers {l : Logging} {n : ℕ} : n ∈ l.hostHandlers ↔ .host n ∈ l.handlers := by
  rw [hostHandlers, List.mem_filterMap]
  exact ⟨fun ⟨_, hmem, hn⟩ ↦ host?_eq_some hn ▸ hmem, fun hmem ↦ ⟨_, hmem, rfl⟩⟩

/-! ## What a call does -/

variable {l : Logging} {f : ConfigureFaults}

theorem hostHandlers_detach (l : Logging) (f : ConfigureFaults) :
    (l.detach f).1.hostHandlers = l.hostHandlers := by
  rw [detach]
  cases l.active with
  | none => rfl
  | some n =>
    have herase : (l.handlers.erase (.own n)).filterMap LogHandler.host? = l.hostHandlers :=
      filterMap_erase_of_none rfl _
    cases f.close with
    | false => exact herase
    | true => exact herase

/-- The old handler is taken back, -/
theorem ownHandlers_detach (l : Logging) (f : ConfigureFaults) :
    (l.detach f).1.ownHandlers = l.others := by
  rw [detach, others]
  cases l.active with
  | none => rfl
  | some n =>
    cases f.close with
    | false => exact ownHandlers_erase_own l n
    | true => exact ownHandlers_erase_own l n

/-- and closed, or stays the active one. -/
theorem Ok.detach (h : l.Ok) (f : ConfigureFaults) :
    (l.detach f).1.Ok ∧ (l.Tidy → (l.detach f).1.Tidy) ∧
      ((l.detach f).2 = true → (l.detach f).1.active = none) := by
  have hown := ownHandlers_detach l f
  have hattached : ∀ n ∈ l.others, n < l.built.length := by
    intro n hn
    refine h.attached n ?_
    rw [others] at hn
    cases hactive : l.active with
    | none => rwa [hactive] at hn
    | some m =>
      rw [hactive] at hn
      exact List.mem_of_mem_erase hn
  cases hactive : l.active with
  | none =>
    have hdetach : l.detach f = (l, true) := by simp [Logging.detach, hactive]
    rw [hdetach]
    exact ⟨h, fun htidy ↦ htidy, fun _ ↦ hactive⟩
  | some n =>
    cases hclose : f.close with
    | true =>
      have hdetach : l.detach f = ({ l with handlers := l.handlers.erase (.own n) }, false) := by
        simp [Logging.detach, hactive, hclose]
      rw [hdetach] at hown ⊢
      refine ⟨⟨fun m hm ↦ hattached m (hown ▸ hm), h.active, h.closed, h.built⟩,
        fun htidy ↦ ⟨Or.inl (hown.trans htidy.others), htidy.open_active⟩, fun hret ↦ by cases hret⟩
    | false =>
      have hdetach : l.detach f = ({ l with
          handlers := l.handlers.erase (.own n)
          closed := l.closed ++ [n]
          active := none }, true) := by
        simp [Logging.detach, hactive, hclose]
      rw [hdetach] at hown ⊢
      refine ⟨⟨fun m hm ↦ hattached m (hown ▸ hm), ?_, ?_, ?_⟩,
        fun htidy ↦ ⟨Or.inl (hown.trans htidy.others), ?_⟩, fun _ ↦ rfl⟩
      · rintro m ⟨⟩
      · intro m hm
        refine Or.inr (List.mem_append.mpr ?_)
        rcases h.closed m hm with hm | hm
        · exact Or.inr (List.mem_singleton.mpr (Option.some.inj (hm.symm.trans hactive)))
        · exact Or.inl hm
      · intro m hm
        rcases List.mem_append.mp hm with hm | hm
        · exact h.built m hm
        · exact List.mem_singleton.mp hm ▸ h.active n hactive
      · rintro m ⟨⟩

/-- What is on the root logger after a call that has put a handler there: next to those that were
`left` there the active one. -/
structure Logs (left : List ℕ) (path : Str) (config : RotationConfig) (l : Logging) : Prop where
  /-- The handler writes to the file, and rotates it as configured. -/
  handler : ∃ n h, l.ownHandlers = left ++ [n] ∧ l.active = some n ∧ n ∉ left ∧ n ∉ l.closed ∧
    l.built[n]? = some ⟨path, h⟩ ∧ buildRotatingHandler config = some h
  /-- `INFO` gets through. -/
  level : 0 < l.level ∧ l.level ≤ 20

/-- A new handler is put there. -/
theorem Ok.attach (h : l.Ok) (hnone : l.active = none) (f : ConfigureFaults) (path : Str)
    (config : RotationConfig) :
    (l.attach f path config).1.Ok ∧ (l.Tidy → (l.attach f path config).1.Tidy) ∧
      (l.attach f path config).1.hostHandlers = l.hostHandlers ∧
      ((l.attach f path config).2 = true →
        (l.attach f path config).1.Logs l.ownHandlers path config) := by
  rw [Logging.attach]
  cases hbuild : if f.openFile then none else buildRotatingHandler config with
  | none => exact ⟨h, fun htidy ↦ htidy, rfl, fun hret ↦ by cases hret⟩
  | some handler =>
    have hhandler : buildRotatingHandler config = some handler := by
      cases hopen : f.openFile <;> simp_all
    have hown : (l.handlers ++ [LogHandler.own l.built.length]).filterMap LogHandler.own? =
        l.ownHandlers ++ [l.built.length] := by
      rw [List.filterMap_append]
      rfl
    have hopen : l.built.length ∉ l.closed := fun hclosed ↦
      absurd (h.built _ hclosed) (Nat.lt_irrefl _)
    have hleft : l.built.length ∉ l.ownHandlers := fun hmem ↦
      absurd (h.attached _ hmem) (Nat.lt_irrefl _)
    refine ⟨⟨?_, ?_, ?_, ?_⟩, fun htidy ↦ ⟨Or.inr ⟨_, rfl, ?_⟩, ?_⟩, ?_,
      fun _ ↦ ⟨⟨_, handler, hown, rfl, hleft, hopen, List.getElem?_concat_length, hhandler⟩, ?_⟩⟩
    · intro n hn
      rw [List.length_append, List.length_singleton]
      rcases List.mem_append.mp ((congrArg (n ∈ ·) hown).mp hn) with hn | hn
      · exact Nat.lt_succ_of_lt (h.attached n hn)
      · exact List.mem_singleton.mp hn ▸ Nat.lt_succ_self _
    · intro n hn
      rw [← Option.some.inj hn]
      simp
    · intro n hn
      rw [List.length_append, List.length_singleton] at hn
      rcases Nat.lt_succ_iff_lt_or_eq.mp hn with hn | rfl
      · exact Or.inr ((h.closed n hn).resolve_left (by simp [hnone]))
      · exact Or.inl rfl
    · intro n hn
      rw [List.length_append]
      exact Nat.lt_add_right _ (h.built n hn)
    · have hempty : l.ownHandlers = [] := by
        have hothers := htidy.others
        rwa [others, hnone] at hothers
      exact hown.trans (by rw [hempty]; rfl)
    · intro n hn
      rwa [← Option.some.inj hn]
    · show (l.handlers ++ [LogHandler.own l.built.length]).filterMap LogHandler.host? = _
      rw [List.filterMap_append]
      exact List.append_nil _
    · show 0 < (if _ then _ else _) ∧ (if _ then _ else _) ≤ 20
      split_ifs with hlevel
      · decide
      · omega

/-- What is on the root logger after a call of `configure` that has returned. -/
def Configured (left : List ℕ) (s : Settings) (args : ConfigureArgs) (l : Logging) : Prop :=
  match destination s args with
  | none => l.ownHandlers = left ∧ l.active = none ∧ l.pipeline = some ⟨args.jsonOutput, false⟩
  | some path => l.Logs left path (getRotationConfig s args.tenantId).config ∧
      l.pipeline = some ⟨args.jsonOutput, true⟩

/-- The handlers are not touched by what is noted of the configuration. -/
theorem Ok.reconfigured (h : l.Ok) (pipeline : Option Pipeline) (configured : Bool) :
    ({ l with pipeline, configured } : Logging).Ok := ⟨h.attached, h.active, h.closed, h.built⟩

theorem Tidy.reconfigured (h : l.Tidy) (pipeline : Option Pipeline) (configured : Bool) :
    ({ l with pipeline, configured } : Logging).Tidy := ⟨h.own, h.open_active⟩

/-- **A call of `configure`**, whether it returns or raises. -/
theorem Ok.configure (h : l.Ok) (s : Settings) (args : ConfigureArgs) (f : ConfigureFaults) :
    (l.configure s args f).1.Ok ∧ (l.Tidy → (l.configure s args f).1.Tidy) ∧
      (l.configure s args f).1.hostHandlers = l.hostHandlers ∧
      ((l.configure s args f).2 = true → (l.configure s args f).1.Configured l.others s args) := by
  obtain ⟨hok, htidy, hdetached⟩ := h.detach f
  have hhost := hostHandlers_detach l f
  have hown := ownHandlers_detach l f
  rw [Logging.configure]
  cases hread : f.readConfig with
  | true => exact ⟨h, fun htidy ↦ htidy, rfl, fun hret ↦ by cases hret⟩
  | false =>
    rw [if_neg Bool.false_ne_true]
    generalize l.detach f = detached at hok htidy hdetached hhost hown ⊢
    obtain ⟨l', ok⟩ := detached
    cases ok with
    | false => exact ⟨hok, htidy, hhost, fun hret ↦ by cases hret⟩
    | true =>
      have hnone := hdetached rfl
      cases hpath : destination s args with
      | none =>
        refine ⟨hok.reconfigured _ _, fun ht ↦ (htidy ht).reconfigured _ _, hhost, fun _ ↦ ?_⟩
        rw [Configured, hpath]
        exact ⟨hown, hnone, rfl⟩
      | some path =>
        obtain ⟨hok', htidy', hhost', hlogs⟩ :=
          hok.attach hnone f path (getRotationConfig s args.tenantId).config
        dsimp only at hok' htidy' hhost' hlogs hhost hown ⊢
        rw [hown] at hlogs
        generalize l'.attach f path (getRotationConfig s args.tenantId).config = attached
          at hok' htidy' hhost' hlogs ⊢
        obtain ⟨l'', ok⟩ := attached
        cases ok with
        | false =>
          exact ⟨hok', fun ht ↦ htidy' (htidy ht), hhost'.trans hhost, fun hret ↦ by cases hret⟩
        | true =>
          refine ⟨hok'.reconfigured _ _, fun ht ↦ (htidy' (htidy ht)).reconfigured _ _,
            hhost'.trans hhost, fun _ ↦ ?_⟩
          rw [Configured, hpath]
          exact ⟨⟨(hlogs rfl).handler, (hlogs rfl).level⟩, rfl⟩

theorem Ok.getLogger (h : l.Ok) (s : Settings) (f : ConfigureFaults) :
    (l.getLogger s f).1.Ok ∧ (l.Tidy → (l.getLogger s f).1.Tidy) ∧
      (l.getLogger s f).1.hostHandlers = l.hostHandlers := by
  rw [Logging.getLogger]
  split_ifs
  · exact ⟨h, fun htidy ↦ htidy, rfl⟩
  · obtain ⟨hok, htidy, hhost, -⟩ := h.configure s {} f
    exact ⟨hok, htidy, hhost⟩

/-! ## What the host does -/

/-- Whatever the host does, it builds no handler of ours. -/
theorem Ok.runHost (h : l.Ok) (e : HostEvent) : (l.runHost e).Ok := by
  have hhandlers {handlers : List LogHandler}
      (hsub : ∀ n, .own n ∈ handlers → n < l.built.length) : ({ l with handlers } : Logging).Ok :=
    ⟨fun n hn ↦ hsub n (mem_ownHandlers.mp hn), h.active, h.closed, h.built⟩
  cases e with
  | adds a =>
    rw [Logging.runHost]
    split_ifs with hskip
    · exact h
    · refine hhandlers fun n hn ↦ ?_
      rcases List.mem_append.mp hn with hn | hn
      · exact h.attached n (mem_ownHandlers.mpr hn)
      · rw [← List.mem_singleton.mp hn] at hskip
        simpa [has] using (not_or.mp hskip).2
  | removes a =>
    exact hhandlers fun n hn ↦ h.attached n (mem_ownHandlers.mpr (List.mem_of_mem_erase hn))
  | replaces hs =>
    refine hhandlers fun n hn ↦ ?_
    simpa [has] using (List.mem_filter.mp hn).2
  | closes n =>
    rw [Logging.runHost]
    split_ifs with hn
    · refine ⟨h.attached, h.active, fun m hm ↦ ?_, fun m hm ↦ ?_⟩
      · exact (h.closed m hm).imp_right fun hm ↦ List.mem_append.mpr (Or.inl hm)
      · rcases List.mem_append.mp hm with hm | hm
        · exact h.built m hm
        · exact List.mem_singleton.mp hm ▸ hn
    · exact h
  | setsLevel level => exact ⟨h.attached, h.active, h.closed, h.built⟩

/-- A host that respects our handlers leaves at most one there. -/
theorem Tidy.runHost (h : l.Tidy) {e : HostEvent} (he : e.Respects l) : (l.runHost e).Tidy := by
  have hhandlers {handlers : List LogHandler} (hown : handlers.filterMap LogHandler.own? = [] ∨
      ∃ n, l.active = some n ∧ handlers.filterMap LogHandler.own? = [n]) :
      ({ l with handlers } : Logging).Tidy := ⟨hown, h.open_active⟩
  cases e with
  | adds a =>
    rw [Logging.runHost]
    split_ifs with hskip
    · exact h
    · refine hhandlers ?_
      rw [List.filterMap_append, show l.handlers.filterMap LogHandler.own? = l.ownHandlers from rfl]
      cases a with
      | host n => exact (List.append_nil l.ownHandlers).symm ▸ h.own
      | own n =>
        have hactive : l.active = some n := he
        have hempty : l.ownHandlers = [] := by
          refine h.own.resolve_right fun ⟨m, hm, hown⟩ ↦ ?_
          rw [hactive] at hm
          rw [← Option.some.inj hm] at hown
          exact (not_or.mp hskip).1 (mem_ownHandlers.mp (hown ▸ List.mem_singleton_self n))
        exact Or.inr ⟨n, hactive, by rw [hempty]; rfl⟩
  | removes a =>
    refine hhandlers ?_
    cases a with
    | host n =>
      have herase : (l.handlers.erase (.host n)).filterMap LogHandler.own? = l.ownHandlers :=
        filterMap_erase_of_none rfl _
      rw [herase]
      exact h.own
    | own n =>
      rw [ownHandlers_erase_own]
      rcases h.own with hown | ⟨m, hm, hown⟩
      · exact Or.inl (by rw [hown]; rfl)
      · rw [hown]
        by_cases hmn : m = n
        · exact Or.inl (hmn ▸ List.erase_cons_head m [])
        · exact Or.inr ⟨m, hm, by rw [List.erase_cons_tail (by simpa using hmn)]; rfl⟩
  | replaces hs =>
    have hsub : ((hs.filter l.has).filterMap LogHandler.own?).Sublist
        (hs.filterMap LogHandler.own?) := List.filter_sublist.filterMap _
    refine hhandlers ?_
    rcases he with he | ⟨n, hn, he⟩
    · exact Or.inl (List.sublist_nil.mp (he ▸ hsub))
    · rcases List.sublist_singleton.mp (he ▸ hsub) with hnil | hone
      · exact Or.inl hnil
      · exact Or.inr ⟨n, hn, hone⟩
  | closes n =>
    rw [Logging.runHost]
    split_ifs
    · refine ⟨h.own, fun m hm hclosed ↦ ?_⟩
      rcases List.mem_append.mp hclosed with hclosed | hclosed
      · exact h.open_active m hm hclosed
      · exact he (List.mem_singleton.mp hclosed ▸ hm)
    · exact h
  | setsLevel level => exact ⟨h.own, h.open_active⟩

theorem hostHandlers_runHost (l : Logging) (e : HostEvent) :
    (l.runHost e).hostHandlers = hostAlone l.hostHandlers (.host e) := by
  cases e with
  | adds a =>
    rw [Logging.runHost]
    cases a with
    | own n =>
      split_ifs
      · rfl
      · show (l.handlers ++ [LogHandler.own n]).filterMap _ = _
        rw [List.filterMap_append]
        exact List.append_nil _
    | host n =>
      show _ = if n ∈ l.hostHandlers then _ else _
      by_cases hmem : LogHandler.host n ∈ l.handlers
      · rw [if_pos (Or.inl hmem), if_pos (mem_hostHandlers.mpr hmem)]
      · rw [if_neg (by simp [hmem, has]), if_neg (mt mem_hostHandlers.mp hmem)]
        show (l.handlers ++ [LogHandler.host n]).filterMap _ = _
        rw [List.filterMap_append]
        rfl
  | removes a =>
    cases a with
    | own n => exact filterMap_erase_of_none rfl l.handlers
    | host n => exact filterMap_erase_of_some (f := LogHandler.host?) rfl (fun _ ↦ host?_eq_some) _
  | replaces hs =>
    show (hs.filter l.has).filterMap LogHandler.host? = _
    rw [List.filterMap_filter]
    refine List.filterMap_congr fun a _ ↦ ?_
    cases a <;> simp [has, LogHandler.host?]
  | closes n =>
    rw [Logging.runHost]
    split_ifs <;> rfl
  | setsLevel level => rfl

/-! ## Runs -/

/-- **Every event keeps the invariant.** -/
theorem Ok.run (h : l.Ok) (e : Event) : (l.run e).Ok := by
  cases e with
  | configure s args f => exact (h.configure s args f).1
  | getLogger s f => exact (h.getLogger s f).1
  | host e => exact h.runHost e

/-- **Every event leaves the handlers of the host to the host.** -/
theorem Ok.hostHandlers_run (h : l.Ok) (e : Event) :
    (l.run e).hostHandlers = hostAlone l.hostHandlers e := by
  cases e with
  | configure s args f => exact (h.configure s args f).2.2.1
  | getLogger s f => exact (h.getLogger s f).2.2
  | host e => exact hostHandlers_runHost l e

/-- **At most one handler is there**, as long as the host respects ours. -/
theorem Tidy.run {events : List Event} (h : l.Ok) (htidy : l.Tidy) (hevents : l.Respected events) :
    (events.foldl Logging.run l).Tidy := by
  induction events generalizing l with
  | nil => exact htidy
  | cons e events ih =>
    cases e with
    | configure s args f => exact ih (h.run _) ((h.configure s args f).2.1 htidy) hevents
    | getLogger s f => exact ih (h.run _) ((h.getLogger s f).2.1 htidy) hevents
    | host e => exact ih (h.run _) (htidy.runHost hevents.1) hevents.2

/-- **The root logger through any events.**  The process has started with some handlers of the host;
then there are calls of `configure` and `get_logger`, for any tenants and settings, which may raise
at any point, and the host does what it likes with the root logger and the handlers it finds there.
Then the host's handlers are those it would have without us, in their order; of the handlers built
here every one but the active one is closed, on the root logger or not; and as long as the host has
respected them, at most one is there, the active one, which is open.  A call of `configure` that
returns has taken the active handler of before away and leaves a new one there that it was asked
for, or none if the log does not go to a file. -/
theorem logging_handlers (hosts : List ℕ) (level : ℕ) (events : List Event) :
    let l := events.foldl Logging.run (start hosts level)
    l.hostHandlers = events.foldl hostAlone hosts ∧
      (∀ n ∈ l.ownHandlers, n < l.built.length) ∧
      (∀ n, n < l.built.length → l.active = some n ∨ n ∈ l.closed) ∧
      ((start hosts level).Respected events →
        l.ownHandlers = [] ∨ ∃ n, l.active = some n ∧ n ∉ l.closed ∧ l.ownHandlers = [n]) ∧
      ∀ s args f, (l.configure s args f).2 = true →
        (l.configure s args f).1.Configured l.others s args := by
  intro l
  have hrun (l₀ : Logging) (h₀ : l₀.Ok) : (events.foldl Logging.run l₀).Ok ∧
      (events.foldl Logging.run l₀).hostHandlers = events.foldl hostAlone l₀.hostHandlers := by
    induction events generalizing l₀ with
    | nil => exact ⟨h₀, rfl⟩
    | cons e events ih =>
      obtain ⟨hok, hhost⟩ := ih _ (h₀.run e)
      exact ⟨hok, hhost.trans (congrArg (events.foldl hostAlone) (h₀.hostHandlers_run e))⟩
  have hstart : (start hosts level).hostHandlers = hosts := by
    rw [hostHandlers, start, List.filterMap_map]
    exact List.filterMap_some
  obtain ⟨hok, hhost⟩ := hrun _ (ok_start hosts level)
  refine ⟨hhost.trans (congrArg (events.foldl hostAlone) hstart), hok.attached, hok.closed,
    fun hevents ↦ ?_, fun s args f ↦ (hok.configure s args f).2.2.2⟩
  have htidy := Tidy.run (ok_start hosts level) (tidy_start hosts level) hevents
  rcases htidy.own with hown | ⟨n, hn, hown⟩
  · exact Or.inl hown
  · exact Or.inr ⟨n, hn, htidy.open_active n hn, hown⟩

/-- The log goes to a file; then a test of the host puts a handler of its own in the place of all
others, and puts them back when it ends. -/
def captured : List Event :=
  [.configure .fresh { filePath := some "app.log".toList } ⟨false, false, false⟩,
    .host (.replaces [.host 1]), .host (.replaces [.host 0, .own 0])]

theorem logging_handlers_captured :
    let l := captured.foldl Logging.run (start [0] 30)
    l.hostHandlers = [0] ∧
      (l.ownHandlers = [] ∨ ∃ n, l.active = some n ∧ n ∉ l.closed ∧ l.ownHandlers = [n]) := by
  obtain ⟨hhost, -, -, htidy, -⟩ := logging_handlers [0] 30 captured
  exact ⟨hhost, htidy ⟨Or.inl rfl, Or.inr ⟨0, rfl, rfl⟩, trivial⟩⟩

end Logging

end WiseTraceLoom
