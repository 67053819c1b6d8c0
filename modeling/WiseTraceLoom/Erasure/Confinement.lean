import WiseTraceLoom.Erasure.Accountability
import WiseTraceLoom.Erasure.Shredding

/-!
# Who can make a ciphertext unreadable

Keys belong to subjects.  The tables of keys and requests have a column for the tenant, but no
lookup and no update asks for it, so what a call does to the ciphertexts of a subject depends on the
subject and not on the tenant it is made for: a tenant that has a subject erased erases the
subject's data for every tenant (`erased_for_other_tenant`).

`erasure_confined` says that this is all: a call that does not confirm a request for the same
subject leaves what a ciphertext decrypts to as it is.
-/

set_option autoImplicit false

namespace WiseTraceLoom

open Interleaving NumberedLog

variable {F : Fernet} {st st' : Store} {w : Stores}

/-! ## Calls -/

/-- A call, with what it meets. -/
inductive ErasureCall where
  | encrypt (env : EncryptEnv) (subjectId plaintext : Str) (tenantId : Option Str)
  | request (subjectId : Str) (tenantId requestedBy scope : Option Str) (now : Timestamp)
  | confirm (env : ConfirmEnv) (id : ℤ)

/-- The stores after the call. -/
def ErasureCall.run (F : Fernet) (w : Stores) : ErasureCall → Stores
  | .encrypt env s p tenantId =>
    w.set w.defaultPath (encryptForSubject F env s p tenantId w.default).2
  | .request s tenantId requestedBy scope now =>
    w.set w.defaultPath (requestErasure s tenantId requestedBy scope now w.default).2
  | .confirm env id => (confirmErasure env id w).2

/-- The tenant the call is made for: a confirmation is one for the tenant of its request. -/
def ErasureCall.tenantId (w : Stores) : ErasureCall → Option Str
  | .encrypt _ _ _ tenantId => tenantId
  | .request _ tenantId _ _ _ => tenantId
  | .confirm _ id => (w.default.erasureRequest id).bind ErasureRequest.tenantId

/-- Is it the confirmation of a request for this subject? -/
def ErasureCall.erases (w : Stores) (s : Str) : ErasureCall → Bool
  | .confirm _ id => (w.default.erasureRequest id).any fun r ↦ r.subjectId = s
  | _ => false

/-- One call after the other. -/
def runCalls (F : Fernet) (calls : List ErasureCall) (w : Stores) : Stores :=
  calls.foldl (ErasureCall.run F) w

theorem runCalls_append (calls calls' : List ErasureCall) (w : Stores) :
    runCalls F (calls ++ calls') w = runCalls F calls' (runCalls F calls w) :=
  List.foldl_append

/-- One of the calls has encrypted something for the subject and the tenant and has returned this
ciphertext. -/
def Produced (F : Fernet) (w : Stores) (calls : List ErasureCall) (s : Str)
    (tenantId : Option Str) (ciphertext : Str) : Prop :=
  ∃ before env p after, calls = before ++ .encrypt env s p tenantId :: after ∧
    (encryptForSubject F env s p tenantId (runCalls F before w).default).1 = some ciphertext

/-! ## The key table -/

/-- Past its commit, a confirmation leaves the keys alone. -/
def ConfirmCall.pastCommit : ConfirmCall → Bool
  | .called _ | .checked _ | .keyed _ _ => false
  | _ => true

theorem ConfirmStep.subjectKeys_eq {c c' : ConfirmCall} (h : ConfirmStep st c st' c')
    (hc : c.pastCommit = true) : st'.subjectKeys = st.subjectKeys ∧ c'.pastCommit = true := by
  cases h with
  | commit now => cases hc
  | appendStep hstep =>
    rw [hstep.store_eq]
    exact ⟨rfl, rfl⟩
  | _ => simp_all [ConfirmCall.pastCommit]

theorem recordErasure_subjectKeys (env : ConfirmEnv) (r : ErasureRequest) (n : ℕ) (w : Stores) :
    (recordErasure env r.id n w).2.default.subjectKeys = w.default.subjectKeys := by
  have hsteps := recordErasure_steps env r n w
  suffices hall : ∀ y, Solo ConfirmStep (w.default, .committed r n) y →
      y.1.subjectKeys = w.default.subjectKeys ∧ y.2.pastCommit = true from (hall _ hsteps).1
  intro y hy
  induction hy with
  | refl => exact ⟨rfl, rfl⟩
  | tail _ hstep ih =>
    obtain ⟨hkeys, hpast⟩ := hstep.subjectKeys_eq ih.2
    exact ⟨hkeys.trans ih.1, hpast⟩

/-- **What a call does to the keys**: nothing, a new row, or the end of all live keys of the subject
whose erasure it confirms. -/
theorem ErasureCall.effect (call : ErasureCall) (w : Stores) :
    (call.run F w).default.subjectKeys = w.default.subjectKeys ∨
      (∃ s tenantId keyMaterial now, w.default.insertSubjectKey (w.default.newSubjectKey s tenantId
        (w.default.nextGeneration s) keyMaterial now) = some (call.run F w).default) ∨
      ∃ (r : ErasureRequest) (now : Timestamp), call.erases w r.subjectId = true ∧
        (call.run F w).default.subjectKeys =
          (w.default.confirm r.id (w.default.liveKeys r.subjectId) now).subjectKeys := by
  cases call with
  | encrypt env s p tenantId =>
    rw [run, Stores.set_default, encryptForSubject]
    cases w.default.activeSubjectKey s with
    | some key => exact Or.inl rfl
    | none =>
      cases hins : w.default.insertSubjectKey (w.default.newSubjectKey s tenantId
          (w.default.nextGeneration s) env.keyMaterial env.now) with
      | none => exact Or.inl (by simp only [hins])
      | some st' =>
        simp only [hins]
        exact Or.inr (Or.inl ⟨s, tenantId, env.keyMaterial, env.now, hins⟩)
  | request s tenantId requestedBy scope now =>
    rw [run, Stores.set_default]
    exact Or.inl rfl
  | confirm env id =>
    rw [run, confirmErasure]
    cases hget : w.default.erasureRequest id with
    | none => exact Or.inl rfl
    | some r =>
      simp only
      split_ifs
      · exact Or.inl rfl
      · exact Or.inl rfl
      · refine Or.inr (Or.inr ⟨r, env.now, ?_, ?_⟩)
        · rw [erases, hget]
          simp
        · rw [recordErasure_subjectKeys, Stores.set_default]

theorem ErasureCall.keysOk (call : ErasureCall) (h : w.default.KeysOk) :
    (call.run F w).default.KeysOk := by
  rcases call.effect (F := F) w with hsame | ⟨s, tenantId, keyMaterial, now, hins⟩ |
    ⟨r, now, -, hkeys⟩
  · exact h.of_eq hsame
  · exact h.insert hins
  · exact (h.confirm r.id (w.default.liveKeys r.subjectId) now).of_eq hkeys

theorem runCalls_keysOk (calls : List ErasureCall) (h : w.default.KeysOk) :
    (runCalls F calls w).default.KeysOk := by
  induction calls generalizing w with
  | nil => exact h
  | cons call calls ih => exact ih (call.keysOk h)

/-- A row that a confirmation destroys is a live row of the subject. -/
theorem Store.KeysOk.mem_liveKeys (h : st.KeysOk) {s : Str} {k : SubjectKey}
    (hk : k ∈ st.subjectKeys) (hid : k.id ∈ (st.liveKeys s).map SubjectKey.id) :
    k.subjectId = s ∧ k.keyMaterial.isSome := by
  obtain ⟨k', hk', hsame⟩ := List.mem_map.mp hid
  rw [Store.liveKeys, List.mem_filter] at hk'
  obtain ⟨hk', hlive⟩ := hk'
  rw [NumberedFrom.injOn h.ids hk hk' hsame.symm]
  simpa using hlive

/-- **A call that erases another subject, or none, keeps the rows of the subject.** -/
theorem ErasureCall.mem_of_not_erases {call : ErasureCall} {k : SubjectKey} (h : w.default.KeysOk)
    (hk : k ∈ w.default.subjectKeys) (hcall : call.erases w k.subjectId = false) :
    k ∈ (call.run F w).default.subjectKeys := by
  rcases call.effect (F := F) w with hsame | ⟨s, tenantId, keyMaterial, now, hins⟩ |
    ⟨r, now, herases, hkeys⟩
  · exact hsame ▸ hk
  · rw [(Store.insertSubjectKey_eq_some hins).2]
    exact List.mem_append_left _ hk
  · rw [hkeys]
    refine List.mem_map.mpr ⟨k, hk, if_neg ?_⟩
    intro hid
    rw [(h.mem_liveKeys hk hid).1, herases] at hcall
    cases hcall

/-- Any other call keeps a row or destroys its key. -/
theorem ErasureCall.mem_or_destroyed (call : ErasureCall) {k : SubjectKey}
    (hk : k ∈ w.default.subjectKeys) : k ∈ (call.run F w).default.subjectKeys ∨
      ∃ now, k.destroy now ∈ (call.run F w).default.subjectKeys := by
  rcases call.effect (F := F) w with hsame | ⟨s, tenantId, keyMaterial, now, hins⟩ |
    ⟨r, now, -, hkeys⟩
  · exact Or.inl (hsame ▸ hk)
  · rw [(Store.insertSubjectKey_eq_some hins).2]
    exact Or.inl (List.mem_append_left _ hk)
  · rw [hkeys]
    by_cases hid : k.id ∈ (w.default.liveKeys r.subjectId).map SubjectKey.id
    · exact Or.inr ⟨now, List.mem_map.mpr ⟨k, hk, if_pos hid⟩⟩
    · exact Or.inl (List.mem_map.mpr ⟨k, hk, if_neg hid⟩)

/-! ## Ciphertexts -/

/-- The ciphertext carries a generation of the subject that has a row. -/
def Store.Stamped (st : Store) (s ciphertext : Str) : Prop :=
  ∃ k ∈ st.subjectKeys, k.subjectId = s ∧
    ∃ token, ciphertext = stampCiphertext k.generation token

theorem encryptForSubject_stamped {env : EncryptEnv} {s p ciphertext : Str}
    {tenantId : Option Str} (h : (encryptForSubject F env s p tenantId st).1 = some ciphertext) :
    (encryptForSubject F env s p tenantId st).2.Stamped s ciphertext := by
  rw [encryptForSubject] at h ⊢
  cases hactive : st.activeSubjectKey s with
  | some key =>
    simp only [hactive, Option.map_eq_some_iff] at h
    obtain ⟨material, -, hciphertext⟩ := h
    obtain ⟨hk, hs, -⟩ := Store.activeSubjectKey_mem hactive
    exact ⟨key, hk, hs, _, hciphertext.symm⟩
  | none =>
    simp only [hactive] at h
    cases hins : st.insertSubjectKey
        (st.newSubjectKey s tenantId (st.nextGeneration s) env.keyMaterial env.now) with
    | none =>
      simp only [hins] at h
      cases h
    | some st' =>
      simp only [hins] at h ⊢
      refine ⟨_, ?_, rfl, _, (Option.some.inj h).symm⟩
      rw [(Store.insertSubjectKey_eq_some hins).2]
      exact List.mem_append_right _ (List.mem_singleton_self _)

theorem runCalls_stamped {s ciphertext : Str} (calls : List ErasureCall)
    (h : w.default.Stamped s ciphertext) :
    (runCalls F calls w).default.Stamped s ciphertext := by
  induction calls generalizing w with
  | nil => exact h
  | cons call calls ih =>
    refine ih ?_
    obtain ⟨k, hk, hs, hciphertext⟩ := h
    rcases call.mem_or_destroyed (F := F) hk with hk | ⟨now, hk⟩
    · exact ⟨k, hk, hs, hciphertext⟩
    · exact ⟨k.destroy now, hk, hs, hciphertext⟩

theorem Produced.stamped {calls : List ErasureCall} {s ciphertext : Str} {tenantId : Option Str}
    (h : Produced F w calls s tenantId ciphertext) :
    (runCalls F calls w).default.Stamped s ciphertext := by
  obtain ⟨before, env, p, after, rfl, hciphertext⟩ := h
  rw [runCalls_append]
  refine runCalls_stamped after ?_
  rw [ErasureCall.run, Stores.set_default]
  exact encryptForSubject_stamped hciphertext

/-- What a ciphertext decrypts to is a matter of the row of its generation. -/
theorem decryptForSubject_congr {s token : Str} {g : ℤ}
    (h : (st'.subjectKey s g).bind SubjectKey.keyMaterial =
      (st.subjectKey s g).bind SubjectKey.keyMaterial) :
    decryptForSubject F st' s (stampCiphertext g token) =
      decryptForSubject F st s (stampCiphertext g token) := by
  have hdot : '.' ∉ Text.ofInt g := Text.not_mem_ofInt (by decide) (by decide) _
  simp only [decryptForSubject, stampCiphertext, Text.partition_append _ hdot, Text.toInt?_ofInt, h]

theorem decryptForSubject_destroyed {s token : Str} {g : ℤ}
    (h : (st.subjectKey s g).bind SubjectKey.keyMaterial = none) :
    decryptForSubject F st s (stampCiphertext g token) = .ok none := by
  have hdot : '.' ∉ Text.ofInt g := Text.not_mem_ofInt (by decide) (by decide) _
  simp only [decryptForSubject, stampCiphertext, Text.partition_append _ hdot, Text.toInt?_ofInt, h]

/-- **Erasure is confined to its subject.**  In every run of calls on new stores and for every
ciphertext that was produced in it, whoever for: a further call, whoever for, leaves whether and to
what the ciphertext decrypts as it is, unless it confirms a request for the same subject; and if it
does, the ciphertext decrypts to the same or to `None`. -/
theorem erasure_confined {defaultPath : Str} {calls : List ErasureCall} {s ciphertext : Str}
    {tenantId : Option Str}
    (h : Produced F (Stores.init defaultPath) calls s tenantId ciphertext) (call : ErasureCall) :
    let w := runCalls F calls (Stores.init defaultPath)
    (call.erases w s = false → decryptForSubject F (call.run F w).default s ciphertext =
      decryptForSubject F w.default s ciphertext) ∧
    (decryptForSubject F (call.run F w).default s ciphertext =
        decryptForSubject F w.default s ciphertext ∨
      decryptForSubject F (call.run F w).default s ciphertext = .ok none) := by
  intro w
  have hkeys : w.default.KeysOk :=
    runCalls_keysOk calls ⟨numbered_nil, List.nodup_nil⟩
  have hkeys' : (call.run F w).default.KeysOk := call.keysOk hkeys
  obtain ⟨k, hk, rfl, token, rfl⟩ := h.stamped
  have hsame (hmem : k ∈ (call.run F w).default.subjectKeys) :
      decryptForSubject F (call.run F w).default k.subjectId (stampCiphertext k.generation token) =
        decryptForSubject F w.default k.subjectId (stampCiphertext k.generation token) := by
    apply decryptForSubject_congr
    rw [hkeys'.subjectKey_eq hmem, hkeys.subjectKey_eq hk]
  refine ⟨fun hcall ↦ hsame (ErasureCall.mem_of_not_erases hkeys hk hcall), ?_⟩
  rcases call.mem_or_destroyed (F := F) hk with hmem | ⟨now, hmem⟩
  · exact Or.inl (hsame hmem)
  · refine Or.inr (decryptForSubject_destroyed ?_)
    exact congrArg (Option.bind · SubjectKey.keyMaterial) (hkeys'.subjectKey_eq hmem)

/-! ### Two tenants with one subject -/

/-- One tenant encrypts something for the subject, and the other one asks for the erasure of the
subject. -/
def twoTenants : List ErasureCall :=
  [.encrypt ⟨aliceKey₁, aliceNonce, noon⟩ alice alicePlaintext (some "globex".toList),
    .request alice (some "acme".toList) none none noon]

/-- The stores after that. -/
def twoTenantStores : Stores := runCalls aliceFernet twoTenants (Stores.init "store.db".toList)

/-- The other tenant's request is confirmed. -/
def acmeConfirms : ErasureCall := .confirm routedEnv 1

theorem globex_produced : Produced aliceFernet (Stores.init "store.db".toList) twoTenants alice
    (some "globex".toList) aliceCiphertext₁ := by
  refine ⟨[], _, _, _, rfl, ?_⟩
  exact congrArg (fun token ↦ some (stampCiphertext 1 token)) aliceFernet_encrypt₁

theorem twoTenantStores_keysOk : twoTenantStores.default.KeysOk :=
  runCalls_keysOk twoTenants ⟨numbered_nil, List.nodup_nil⟩

/-- The ciphertext is readable before. -/
theorem globex_reads : decryptForSubject aliceFernet twoTenantStores.default alice
    aliceCiphertext₁ = .ok (some alicePlaintext) := by
  have hciphertext : aliceCiphertext₁ =
      stampCiphertext 1 (aliceFernet.encrypt aliceKey₁ aliceNonce alicePlaintext) := by
    rw [aliceFernet_encrypt₁, aliceCiphertext₁]
  have hencrypted : twoTenantStores.default.Encrypted aliceFernet alice alicePlaintext 1
    aliceCiphertext₁ :=
    ⟨aliceKey₁, aliceNonce, hciphertext, _, List.mem_singleton_self _, rfl, rfl, Or.inl rfl⟩
  have hholds : twoTenantStores.default.HoldsKey alice 1 := rfl
  rw [hencrypted.decrypt aliceFernet_inverts twoTenantStores_keysOk, if_pos hholds]

/-- **A tenant erases another tenant's data** of a subject both have. -/
theorem erased_for_other_tenant :
    Produced aliceFernet (Stores.init "store.db".toList) twoTenants alice (some "globex".toList)
      aliceCiphertext₁ ∧
    acmeConfirms.tenantId twoTenantStores = some "acme".toList ∧
    decryptForSubject aliceFernet twoTenantStores.default alice aliceCiphertext₁ =
      .ok (some alicePlaintext) ∧
    decryptForSubject aliceFernet (acmeConfirms.run aliceFernet twoTenantStores).default alice
      aliceCiphertext₁ = .ok none :=
  ⟨globex_produced, rfl, globex_reads, decryptForSubject_destroyed rfl⟩

/-- Another subject of the other tenant is erased, and the ciphertext stays readable. -/
theorem erased_other_subject : decryptForSubject aliceFernet
    ((ErasureCall.confirm routedEnv 2).run aliceFernet
      ((ErasureCall.request "bob".toList (some "acme".toList) none none noon).run aliceFernet
        twoTenantStores)).default alice aliceCiphertext₁ = .ok (some alicePlaintext) := by
  have hcalls : Produced aliceFernet (Stores.init "store.db".toList)
      (twoTenants ++ [.request "bob".toList (some "acme".toList) none none noon]) alice
      (some "globex".toList) aliceCiphertext₁ := by
    obtain ⟨before, env, p, after, hcalls, hciphertext⟩ := globex_produced
    exact ⟨before, env, p, after ++ [_], by rw [hcalls, List.append_assoc]; rfl, hciphertext⟩
  have hrequest := (erasure_confined globex_produced
    (.request "bob".toList (some "acme".toList) none none noon)).1 rfl
  have hconfirm := (erasure_confined hcalls (.confirm routedEnv 2)).1 rfl
  rw [runCalls_append] at hconfirm
  exact hconfirm.trans (hrequest.trans globex_reads)

end WiseTraceLoom
