import WiseTraceLoom.Residency
import WiseTraceLoom.CryptoShred

/-!
# Erasure, one call after the other

The calls of the erasure workflow as functions, for a process that makes one call at a time.  Keys
and requests are in the default store.  The fact that a request was confirmed is appended to the
store its tenant is routed to, which may be another one, so the state is `Stores`.

`confirmErasure` commits twice: first the destroyed keys and the confirmed request, then the fact.
What it meets on the way is a `ConfirmEnv`: the configuration, the masking callback and the failures
can be different in every call.

For what they do to the default store, the functions are runs of the step relations of
`CryptoShred` (`confirmErasure_steps` and so on).
-/

set_option autoImplicit false

namespace WiseTraceLoom

open Interleaving

/-! ## Stores -/

/-- The stores of a process, told apart by the paths of their files. -/
structure Stores where
  /-- The path of the default store. -/
  defaultPath : Str
  /-- The store at a path. -/
  store : Str → Store

/-- New stores. -/
def Stores.init (defaultPath : Str) : Stores := ⟨defaultPath, Store.create⟩

/-- The default store. -/
def Stores.default (w : Stores) : Store := w.store w.defaultPath

/-- One store replaced. -/
def Stores.set (w : Stores) (path : Str) (st : Store) : Stores :=
  { w with store := Function.update w.store path st }

@[simp] theorem Stores.set_defaultPath (w : Stores) (path : Str) (st : Store) :
    (w.set path st).defaultPath = w.defaultPath := rfl

theorem Stores.set_store (w : Stores) (path path' : Str) (st : Store) :
    (w.set path st).store path' = if path' = path then st else w.store path' :=
  Function.update_apply ..

@[simp] theorem Stores.set_default (w : Stores) (st : Store) :
    (w.set w.defaultPath st).default = st := Function.update_self ..

/-- `append_commit` when no engine is given. -/
def Stores.appendCommit (w : Stores) (routing : Routing) (callback : MaskingCallback)
    (env : AppendEnv) (a : AppendArgs) : Except AppendError StorageCommit × Stores :=
  match routing.resolveEngine a.tenantId with
  | .error e => (.error (.unrouted e), w)
  | .ok path =>
    let result := WiseTraceLoom.appendCommit callback env a (w.store path)
    (result.1, w.set path result.2)

/-! ## The calls -/

/-- `request_erasure`, unless a statement fails. -/
def requestErasure (subjectId : Str) (tenantId requestedBy scope : Option Str) (now : Timestamp)
    (st : Store) : ErasureRequest × Store :=
  st.insertErasureRequest subjectId tenantId requestedBy scope now

/-- What `encrypt_for_subject` meets. -/
structure EncryptEnv where
  /-- The key that is generated if there is none. -/
  keyMaterial : Str
  /-- The random bytes and the time of the cipher. -/
  nonce : Str
  /-- What the clock shows. -/
  now : Timestamp

/-- `encrypt_for_subject`; `none` where it raises. -/
def encryptForSubject (F : Fernet) (env : EncryptEnv) (subjectId plaintext : Str)
    (tenantId : Option Str) (st : Store) : Option Str × Store :=
  match st.activeSubjectKey subjectId with
  | some key =>
    let ciphertext := key.keyMaterial.map fun k ↦
      stampCiphertext key.generation (F.encrypt k env.nonce plaintext)
    (ciphertext, st)
  | none =>
    let row := st.newSubjectKey subjectId tenantId (st.nextGeneration subjectId) env.keyMaterial
      env.now
    match st.insertSubjectKey row with
    | none => (none, st)
    | some st' =>
      (some (stampCiphertext row.generation (F.encrypt env.keyMaterial env.nonce plaintext)), st')

/-- What `confirm_erasure` meets. -/
structure ConfirmEnv where
  /-- What the clock shows. -/
  now : Timestamp
  /-- Does a statement fail before the keys are destroyed, or their commit? -/
  commitFails : Bool
  /-- Does the refresh after this commit fail? -/
  refreshFails : Bool
  /-- The rows of the region configuration. -/
  regionConfigs : List RegionConfig
  /-- The files of the registered regions. -/
  regionDbPaths : List (Str × Str)
  /-- The masking callback. -/
  callback : MaskingCallback
  /-- What the append meets. -/
  append : AppendEnv

/-- The routing a confirmation finds. -/
def ConfirmEnv.routing (env : ConfirmEnv) (defaultPath : Str) : Routing :=
  ⟨defaultPath, env.regionConfigs, env.regionDbPaths⟩

/-- The second half of `confirm_erasure`: the request is read back and the fact is appended. -/
def recordErasure (env : ConfirmEnv) (id : ℤ) (keysDestroyed : ℕ) (w : Stores) :
    Except ConfirmError ErasureRequest × Stores :=
  if env.refreshFails then (.error .other, w)
  else
    match w.default.erasureRequest id with
    | none => (.error .other, w)
    | some request =>
      match erasureFact request keysDestroyed with
      | none => (.error .other, w)
      | some fact =>
        let result := w.appendCommit (env.routing w.defaultPath) env.callback env.append
          (erasureAppend request fact)
        match result.1 with
        | .error e => (.error (.append e), result.2)
        | .ok _ => (.ok request, result.2)

/-- `confirm_erasure`. -/
def confirmErasure (env : ConfirmEnv) (id : ℤ) (w : Stores) :
    Except ConfirmError ErasureRequest × Stores :=
  match w.default.erasureRequest id with
  | none => (.error (.unknown id), w)
  | some r =>
    if r.status ≠ .requested then (.error (.resolved id r.status), w)
    else if env.commitFails then (.error .other, w)
    else
      let keys := w.default.liveKeys r.subjectId
      recordErasure env r.id keys.length
        (w.set w.defaultPath (w.default.confirm r.id keys env.now))

/-! ## Calls as steps -/

theorem requestErasure_steps (s : Str) (tenantId requestedBy scope : Option Str) (now : Timestamp)
    (st : Store) :
    Solo RequestStep (st, .called s tenantId requestedBy scope)
      ((requestErasure s tenantId requestedBy scope now st).2,
        .returned (requestErasure s tenantId requestedBy scope now st).1) :=
  (Solo.step .refl (.insert now)).step .refresh

/-- A row with a new primary key is found by it. -/
theorem Store.find_newSubjectKey {st st' : Store} {s : Str} {tenantId : Option Str} {g : ℤ}
    {keyMaterial : Str} {now : Timestamp}
    (h : st.insertSubjectKey (st.newSubjectKey s tenantId g keyMaterial now) = some st') :
    st'.subjectKeys.find? (fun k ↦ k.id = (st.newSubjectKey s tenantId g keyMaterial now).id) =
      some (st.newSubjectKey s tenantId g keyMaterial now) := by
  have hnone : st.subjectKeys.find?
      (fun k ↦ k.id = (st.newSubjectKey s tenantId g keyMaterial now).id) = none := by
    refine List.find?_eq_none.mpr fun k hk ↦ ?_
    have hlt := lt_nextId (List.mem_map_of_mem (f := SubjectKey.id) hk)
    exact fun hid ↦ hlt.ne (of_decide_eq_true hid)
  rw [(Store.insertSubjectKey_eq_some h).2, List.find?_append, hnone, Option.none_or]
  simp

/-- The state in which an encryption ends. -/
def EncryptCall.ofResult (s p : Str) (g : ℤ) : Option Str → EncryptCall
  | none => .raised
  | some ciphertext => .returned s p g ciphertext

theorem encryptForSubject_steps (F : Fernet) (env : EncryptEnv) (s p : Str) (tenantId : Option Str)
    (st : Store) : ∃ g, Solo (EncryptStep F) (st, .called s p tenantId)
      ((encryptForSubject F env s p tenantId st).2,
        .ofResult s p g (encryptForSubject F env s p tenantId st).1) := by
  rw [encryptForSubject]
  cases hactive : st.activeSubjectKey s with
  | some key =>
    have hkeyed : Solo (EncryptStep F) (st, .called s p tenantId)
        (st, .keyed s p key.generation key.keyMaterial) := Solo.step .refl (.active hactive)
    refine ⟨key.generation, ?_⟩
    cases hkey : key.keyMaterial with
    | none =>
      simp only [hkey, Option.map_none]
      exact hkeyed.step .fail
    | some k =>
      rw [hkey] at hkeyed
      simp only [hkey, Option.map_some]
      exact hkeyed.step (.encrypt env.nonce)
  | none =>
    have hfresh : Solo (EncryptStep F) (st, .called s p tenantId)
        (st, .fresh s p tenantId (st.nextGeneration s)) :=
      (Solo.step .refl (.noActive hactive)).step .readGeneration
    refine ⟨st.nextGeneration s, ?_⟩
    cases hins : st.insertSubjectKey
        (st.newSubjectKey s tenantId (st.nextGeneration s) env.keyMaterial env.now) with
    | none =>
      simp only [hins]
      exact hfresh.step (.integrityError env.keyMaterial env.now hins)
    | some st' =>
      simp only [hins]
      have hkeyed := (hfresh.step (.insert env.keyMaterial env.now hins)).step
        (.refresh (Store.find_newSubjectKey hins))
      exact hkeyed.step (.encrypt env.nonce)

/-- The state in which a confirmation ends. -/
def ConfirmCall.ofResult : Except ConfirmError ErasureRequest → ConfirmCall
  | .ok r => .returned r
  | .error e => .raised e

/-- An append that is part of a confirmation. -/
theorem Solo.appending {st st' : Store} {c c' : AppendCall} (r : ErasureRequest)
    (h : Solo AppendStep (st, c) (st', c')) :
    Solo ConfirmStep (st, .appending r c) (st', .appending r c') := by
  suffices hall : ∀ y, Solo AppendStep (st, c) y →
      Solo ConfirmStep (st, .appending r c) (y.1, .appending r y.2) from hall (st', c') h
  intro y hy
  induction hy with
  | refl => exact .refl
  | tail _ hstep ih => exact ih.step (.appendStep hstep)

/-- The append of the fact to the default store. -/
theorem appendFact_steps (env : ConfirmEnv) {r request : ErasureRequest} {n : ℕ} {st : Store}
    {fact : Payload} (hget : st.erasureRequest r.id = some request)
    (hfact : erasureFact request n = some fact) :
    Solo ConfirmStep (st, .committed r n)
      ((appendCommit env.callback env.append (erasureAppend request fact) st).2,
        .appending request (.ofResult
          (appendCommit env.callback env.append (erasureAppend request fact) st).1)) := by
  have hstart : Solo ConfirmStep (st, .committed r n)
      (st, .appending request (.called (erasureAppend request fact))) :=
    Solo.step .refl (.append hget hfact)
  exact hstart.trans (Solo.appending request (appendCommit_steps env.callback env.append _ st))

/-- The second half of a confirmation. -/
theorem recordErasure_steps (env : ConfirmEnv) (r : ErasureRequest) (n : ℕ) (w : Stores) :
    Solo ConfirmStep (w.default, .committed r n)
      ((recordErasure env r.id n w).2.default, .ofResult (recordErasure env r.id n w).1) := by
  rw [recordErasure]
  split_ifs
  · exact Solo.step .refl (.fail .other)
  cases hget : w.default.erasureRequest r.id with
  | none => exact Solo.step .refl (.fail .other)
  | some request =>
    cases hfact : erasureFact request n with
    | none =>
      simp only [hfact]
      exact Solo.step .refl (.fail .other)
    | some fact =>
      simp only [hfact, Stores.appendCommit]
      cases hpath : (env.routing w.defaultPath).resolveEngine
          (erasureAppend request fact).tenantId with
      | error e => exact Solo.step .refl (.fail _)
      | ok path =>
        by_cases hdefault : path = w.defaultPath
        · -- the fact is appended to the default store
          subst hdefault
          have hend := appendFact_steps env (n := n) hget hfact
          rw [Stores.default] at hend
          cases hresult : (WiseTraceLoom.appendCommit env.callback env.append
              (erasureAppend request fact) (w.store w.defaultPath)).1 with
          | error e =>
            rw [hresult] at hend
            simp only [Stores.default, Stores.set_defaultPath, Stores.set_store, if_true]
            exact Solo.step hend .appendError
          | ok row =>
            rw [hresult] at hend
            simp only [Stores.default, Stores.set_defaultPath, Stores.set_store, if_true]
            exact Solo.step hend .finish
        · -- the default store stays as it is
          have hsame (st : Store) : (w.set path st).default = w.default := by
            rw [Stores.default, Stores.set_defaultPath, Stores.set_store, if_neg (Ne.symm hdefault)]
            rfl
          cases hresult : (WiseTraceLoom.appendCommit env.callback env.append
              (erasureAppend request fact) (w.store path)).1 with
          | error e =>
            simp only [hsame]
            exact Solo.step .refl (.fail _)
          | ok row =>
            simp only [hsame]
            exact Solo.step .refl (.elsewhere hget)

/-- **What a confirmation does to the default store** is a run of the steps of a confirmation. -/
theorem confirmErasure_steps (env : ConfirmEnv) (id : ℤ) (w : Stores) :
    Solo ConfirmStep (w.default, .called id)
      ((confirmErasure env id w).2.default, .ofResult (confirmErasure env id w).1) := by
  rw [confirmErasure]
  cases hget : w.default.erasureRequest id with
  | none => exact Solo.step .refl (.unknown hget)
  | some r =>
    by_cases hr : r.status = .requested
    · have hkeyed : Solo ConfirmStep (w.default, .called id)
          (w.default, .keyed r (w.default.liveKeys r.subjectId)) :=
        (Solo.step .refl (.check hget hr)).step .readKeys
      simp only [hr, ne_eq, not_true_eq_false, if_false]
      split_ifs
      · exact hkeyed.step (.fail .other)
      · have hrecord := recordErasure_steps env r (w.default.liveKeys r.subjectId).length
          (w.set w.defaultPath (w.default.confirm r.id (w.default.liveKeys r.subjectId) env.now))
        rw [Stores.set_default] at hrecord
        exact (hkeyed.step (.commit env.now)).trans hrecord
    · simp only [ne_eq, hr, not_false_eq_true, if_true]
      exact Solo.step .refl (.resolved hget hr)

end WiseTraceLoom
