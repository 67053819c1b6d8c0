import WiseTraceLoom.Lib.Grown
import WiseTraceLoom.Storage.Log

/-!
# Crypto-shredding

Data of a subject is encrypted under a key of its own, and erasing the data means destroying the
key.  A subject has one row per *generation* of its key; a row is never deleted, its key material
is set to `NULL`.

The cipher is not part of the program: `Fernet` is any pair of functions, and `Fernet.Inverts` is
what its documentation says.  The calls are step relations, one step for each statement or commit.
What they can do to the two tables is `SubjectKey.Ages` and `ErasureRequest.Ages`: a row keeps its
identity, a key only disappears and a confirmation only appears.
-/

set_option autoImplicit false

namespace WiseTraceLoom

/-- The cipher. -/
structure Fernet where
  /-- `Fernet(key).encrypt(plaintext)`, with the random bytes and the time it draws. -/
  encrypt (key nonce plaintext : Str) : Str
  /-- `Fernet(key).decrypt(token)`, `none` for an invalid token. -/
  decrypt (key token : Str) : Option Str

/-- Decryption inverts encryption under the same key. -/
def Fernet.Inverts (F : Fernet) : Prop :=
  ∀ key nonce plaintext, F.decrypt key (F.encrypt key nonce plaintext) = some plaintext

/-! ## The statements -/

/-- The rows of a subject that still have their key. -/
def Store.liveKeys (st : Store) (subjectId : Str) : List SubjectKey :=
  st.subjectKeys.filter fun k ↦ k.subjectId = subjectId ∧ k.keyMaterial.isSome

/-- `get_active_subject_key`: the live row of the highest generation. -/
def Store.activeSubjectKey (st : Store) (subjectId : Str) : Option SubjectKey :=
  ((st.liveKeys subjectId).insertionSort fun a b ↦ b.generation ≤ a.generation).head?

/-- The generation after the highest one of a subject. -/
def Store.nextGeneration (st : Store) (subjectId : Str) : ℤ :=
  ((st.subjectKeys.filter fun k ↦ k.subjectId = subjectId).map
    SubjectKey.generation).max?.getD 0 + 1

/-- The row of a generation. -/
def Store.subjectKey (st : Store) (subjectId : Str) (generation : ℤ) : Option SubjectKey :=
  st.subjectKeys.find? fun k ↦ k.subjectId = subjectId ∧ k.generation = generation

/-- The row a new generation gets. -/
def Store.newSubjectKey (st : Store) (subjectId : Str) (tenantId : Option Str) (generation : ℤ)
    (keyMaterial : Str) (now : Timestamp) : SubjectKey :=
  ⟨nextId (st.subjectKeys.map SubjectKey.id), subjectId, tenantId, generation, some keyMaterial,
    (utcnow now).column, none⟩

/-- The insert of a key and its commit, `none` if the generation exists already. -/
def Store.insertSubjectKey (st : Store) (key : SubjectKey) : Option Store :=
  if (st.subjectKey key.subjectId key.generation).isSome then none
  else some { st with subjectKeys := st.subjectKeys ++ [key] }

/-- `session.get(ErasureRequest, request_id)`. -/
def Store.erasureRequest (st : Store) (id : ℤ) : Option ErasureRequest :=
  st.erasureRequests.find? fun r ↦ r.id = id

/-- The insert of an erasure request and its commit. -/
def Store.insertErasureRequest (st : Store) (subjectId : Str)
    (tenantId requestedBy scope : Option Str) (now : Timestamp) : ErasureRequest × Store :=
  let id := nextId (st.erasureRequests.map ErasureRequest.id)
  let row : ErasureRequest :=
    ⟨id, subjectId, tenantId, .requested, scope, requestedBy, (utcnow now).column, none⟩
  (row, { st with erasureRequests := st.erasureRequests ++ [row] })

/-- The row of a key that was destroyed. -/
def SubjectKey.destroy (k : SubjectKey) (now : Timestamp) : SubjectKey :=
  { k with keyMaterial := none, destroyedAt := some (utcnow now).column }

/-- The row of a request that was confirmed. -/
def ErasureRequest.confirm (r : ErasureRequest) (now : Timestamp) : ErasureRequest :=
  { r with status := .confirmed, confirmedAt := some (utcnow now).column }

/-- The updates of `confirm_erasure` and their commit: the keys that were read are destroyed and the
request is confirmed, each by its primary key. -/
def Store.confirm (st : Store) (id : ℤ) (keys : List SubjectKey) (now : Timestamp) : Store :=
  { st with
    subjectKeys := st.subjectKeys.map fun k ↦
      if k.id ∈ keys.map SubjectKey.id then k.destroy now else k
    erasureRequests := st.erasureRequests.map fun r ↦ if r.id = id then r.confirm now else r }

/-- The ciphertext as it is handed out. -/
def stampCiphertext (generation : ℤ) (token : Str) : Str := Text.ofInt generation ++ '.' :: token

/-! ## Encrypting -/

/-- Where a call to `encrypt_for_subject` stands. -/
inductive EncryptCall where
  | called (subjectId plaintext : Str) (tenantId : Option Str)
  /-- There was no active key. -/
  | missing (subjectId plaintext : Str) (tenantId : Option Str)
  /-- The next generation was determined. -/
  | fresh (subjectId plaintext : Str) (tenantId : Option Str) (generation : ℤ)
  /-- The row of the new generation was committed, under this primary key. -/
  | inserted (subjectId plaintext : Str) (id : ℤ)
  /-- The row of the key, active or new, is at hand. -/
  | keyed (subjectId plaintext : Str) (generation : ℤ) (keyMaterial : Option Str)
  | returned (subjectId plaintext : Str) (generation : ℤ) (ciphertext : Str)
  | raised

/-- One step of a call to `encrypt_for_subject`. -/
inductive EncryptStep (F : Fernet) : Store → EncryptCall → Store → EncryptCall → Prop
  | active {st : Store} {s p : Str} {tenantId : Option Str} {key : SubjectKey}
      (h : st.activeSubjectKey s = some key) :
      EncryptStep F st (.called s p tenantId) st (.keyed s p key.generation key.keyMaterial)
  | noActive {st : Store} {s p : Str} {tenantId : Option Str} (h : st.activeSubjectKey s = none) :
      EncryptStep F st (.called s p tenantId) st (.missing s p tenantId)
  | readGeneration {st : Store} {s p : Str} {tenantId : Option Str} :
      EncryptStep F st (.missing s p tenantId) st (.fresh s p tenantId (st.nextGeneration s))
  | insert {st st' : Store} {s p : Str} {tenantId : Option Str} {g : ℤ} (keyMaterial : Str)
      (now : Timestamp)
      (h : st.insertSubjectKey (st.newSubjectKey s tenantId g keyMaterial now) = some st') :
      EncryptStep F st (.fresh s p tenantId g) st'
        (.inserted s p (st.newSubjectKey s tenantId g keyMaterial now).id)
  /-- `IntegrityError`: another call provisioned the generation first. -/
  | integrityError {st : Store} {s p : Str} {tenantId : Option Str} {g : ℤ} (keyMaterial : Str)
      (now : Timestamp)
      (h : st.insertSubjectKey (st.newSubjectKey s tenantId g keyMaterial now) = none) :
      EncryptStep F st (.fresh s p tenantId g) st .raised
  /-- The refresh reads the row back; its key may have been destroyed in the meantime. -/
  | refresh {st : Store} {s p : Str} {id : ℤ} {key : SubjectKey}
      (h : st.subjectKeys.find? (fun k ↦ k.id = id) = some key) :
      EncryptStep F st (.inserted s p id) st (.keyed s p key.generation key.keyMaterial)
  | encrypt {st : Store} {s p key : Str} {g : ℤ} (nonce : Str) :
      EncryptStep F st (.keyed s p g (some key)) st
        (.returned s p g (stampCiphertext g (F.encrypt key nonce p)))
  /-- Anything a statement raises, and the use of a key that is `None`. -/
  | fail {st : Store} {c : EncryptCall} : EncryptStep F st c st .raised

/-- What `decrypt_for_subject` raises. -/
inductive DecryptError where
  /-- `ValueError`: the part before the dot is not a number. -/
  | generation
  /-- `InvalidToken`. -/
  | token
  deriving DecidableEq

/-- `decrypt_for_subject`. -/
def decryptForSubject (F : Fernet) (st : Store) (subjectId ciphertext : Str) :
    Except DecryptError (Option Str) :=
  let (generationStr, token) := Text.partition '.' ciphertext
  match Text.toInt? generationStr with
  | none => .error .generation
  | some generation =>
    match (st.subjectKey subjectId generation).bind SubjectKey.keyMaterial with
    | none => .ok none
    | some key =>
      match F.decrypt key token with
      | none => .error .token
      | some plaintext => .ok (some plaintext)

/-! ## Erasing -/

/-- Where a call to `request_erasure` stands. -/
inductive RequestCall where
  | called (subjectId : Str) (tenantId requestedBy scope : Option Str)
  | inserted (r : ErasureRequest)
  | returned (r : ErasureRequest)
  | raised

/-- One step of a call to `request_erasure`. -/
inductive RequestStep : Store → RequestCall → Store → RequestCall → Prop
  | insert {st : Store} {s : Str} {tenantId requestedBy scope : Option Str} (now : Timestamp) :
      RequestStep st (.called s tenantId requestedBy scope)
        (st.insertErasureRequest s tenantId requestedBy scope now).2
        (.inserted (st.insertErasureRequest s tenantId requestedBy scope now).1)
  | refresh {st : Store} {r : ErasureRequest} : RequestStep st (.inserted r) st (.returned r)
  | fail {st : Store} {c : RequestCall} : RequestStep st c st .raised

/-- What `confirm_erasure` raises. -/
inductive ConfirmError where
  /-- `ErasureRequestError`: there is no such request. -/
  | unknown (id : ℤ)
  /-- `ErasureRequestError`: the request is not waiting to be confirmed. -/
  | resolved (id : ℤ) (status : ErasureStatus)
  | append (e : AppendError)
  /-- Anything else a statement raises. -/
  | other
  deriving DecidableEq

/-- The text of an `ErasureRequestError`. -/
def ConfirmError.message : ConfirmError → Option Str
  | .unknown id => some ("no erasure request with id ".toList ++ Text.ofInt id)
  | .resolved id status =>
    some ("erasure request ".toList ++ Text.ofInt id ++ " is already ".toList ++
      Text.repr status.text ++ ", not 'Requested'".toList)
  | _ => none

/-- A string or `None` as JSON. -/
def optionJson : Option Str → Json
  | none => .null
  | some s => .str s

/-- The erasure fact, as soon as the request is confirmed. -/
def erasureFact (r : ErasureRequest) (keysDestroyed : ℕ) : Option Payload :=
  r.confirmedAt.map fun confirmedAt ↦
    [("subject_id".toList, .str r.subjectId),
      ("erasure_request_id".toList, .int r.id),
      ("requested_by".toList, optionJson r.requestedBy),
      ("scope".toList, optionJson r.scope),
      ("requested_at".toList, .str r.requestedAt.isoformat),
      ("confirmed_at".toList, .str confirmedAt.isoformat),
      ("key_generations_destroyed".toList, .int keysDestroyed)]

/-- The append of an erasure fact. -/
def erasureAppend (r : ErasureRequest) (fact : Payload) : AppendArgs where
  streamId := "erasure_log".toList
  recordType := "erasure_fact".toList
  payload := fact
  tenantId := r.tenantId

/-- Where a call to `confirm_erasure` stands. -/
inductive ConfirmCall where
  | called (id : ℤ)
  /-- The request was found waiting. -/
  | checked (r : ErasureRequest)
  /-- The live keys of its subject were read. -/
  | keyed (r : ErasureRequest) (keys : List SubjectKey)
  /-- The keys are destroyed and the request is confirmed. -/
  | committed (r : ErasureRequest) (keysDestroyed : ℕ)
  /-- The fact is being appended to this store. -/
  | appending (r : ErasureRequest) (c : AppendCall)
  | returned (r : ErasureRequest)
  | raised (e : ConfirmError)

/-- One step of a call to `confirm_erasure`. -/
inductive ConfirmStep : Store → ConfirmCall → Store → ConfirmCall → Prop
  | unknown {st : Store} {id : ℤ} (h : st.erasureRequest id = none) :
      ConfirmStep st (.called id) st (.raised (.unknown id))
  | resolved {st : Store} {id : ℤ} {r : ErasureRequest} (h : st.erasureRequest id = some r)
      (hr : r.status ≠ .requested) :
      ConfirmStep st (.called id) st (.raised (.resolved id r.status))
  | check {st : Store} {id : ℤ} {r : ErasureRequest} (h : st.erasureRequest id = some r)
      (hr : r.status = .requested) : ConfirmStep st (.called id) st (.checked r)
  | readKeys {st : Store} {r : ErasureRequest} :
      ConfirmStep st (.checked r) st (.keyed r (st.liveKeys r.subjectId))
  | commit {st : Store} {r : ErasureRequest} {keys : List SubjectKey} (now : Timestamp) :
      ConfirmStep st (.keyed r keys) (st.confirm r.id keys now) (.committed r keys.length)
  /-- The refresh, after which the fact is appended to this store. -/
  | append {st : Store} {r r' : ErasureRequest} {n : ℕ} {fact : Payload}
      (h : st.erasureRequest r.id = some r') (hfact : erasureFact r' n = some fact) :
      ConfirmStep st (.committed r n) st (.appending r' (.called (erasureAppend r' fact)))
  /-- The refresh, after which the fact is appended to the store of a region. -/
  | elsewhere {st : Store} {r r' : ErasureRequest} {n : ℕ} (h : st.erasureRequest r.id = some r') :
      ConfirmStep st (.committed r n) st (.returned r')
  | appendStep {st st' : Store} {r : ErasureRequest} {c c' : AppendCall}
      (h : AppendStep st c st' c') : ConfirmStep st (.appending r c) st' (.appending r c')
  | finish {st : Store} {r : ErasureRequest} {row : StorageCommit} :
      ConfirmStep st (.appending r (.returned row)) st (.returned r)
  | appendError {st : Store} {r : ErasureRequest} {e : AppendError} :
      ConfirmStep st (.appending r (.raised e)) st (.raised (.append e))
  | fail {st : Store} {c : ConfirmCall} (e : ConfirmError) : ConfirmStep st c st (.raised e)

/-! ## What the calls can do to the tables -/

/-- A key row after some time: the same row, with the same key or with none. -/
structure SubjectKey.Ages (k k' : SubjectKey) : Prop where
  /-- Its primary key does not change. -/
  id : k'.id = k.id
  /-- Its subject does not change. -/
  subjectId : k'.subjectId = k.subjectId
  /-- Its generation does not change. -/
  generation : k'.generation = k.generation
  /-- Its key is the same or destroyed. -/
  keyMaterial : k'.keyMaterial = k.keyMaterial ∨ k'.keyMaterial = none

theorem SubjectKey.Ages.refl (k : SubjectKey) : k.Ages k := ⟨rfl, rfl, rfl, Or.inl rfl⟩

theorem SubjectKey.Ages.trans (k₁ k₂ k₃ : SubjectKey) (h₁ : k₁.Ages k₂) (h₂ : k₂.Ages k₃) :
    k₁.Ages k₃ where
  id := h₂.id.trans h₁.id
  subjectId := h₂.subjectId.trans h₁.subjectId
  generation := h₂.generation.trans h₁.generation
  keyMaterial := by
    rcases h₂.keyMaterial with h | h
    · rw [h]
      exact h₁.keyMaterial
    · exact Or.inr h

/-- A request after some time: the same request, and still confirmed if it was. -/
structure ErasureRequest.Ages (r r' : ErasureRequest) : Prop where
  /-- Its primary key does not change. -/
  id : r'.id = r.id
  /-- Its subject does not change. -/
  subjectId : r'.subjectId = r.subjectId
  /-- It is not taken back. -/
  status : r.status = .confirmed → r'.status = .confirmed

theorem ErasureRequest.Ages.refl (r : ErasureRequest) : r.Ages r := ⟨rfl, rfl, fun h ↦ h⟩

theorem ErasureRequest.Ages.trans (r₁ r₂ r₃ : ErasureRequest) (h₁ : r₁.Ages r₂) (h₂ : r₂.Ages r₃) :
    r₁.Ages r₃ :=
  ⟨h₂.id.trans h₁.id, h₂.subjectId.trans h₁.subjectId, fun h ↦ h₂.status (h₁.status h)⟩

theorem Store.confirm_keys_grown (st : Store) (id : ℤ) (keys : List SubjectKey) (now : Timestamp) :
    Grown SubjectKey.Ages st.subjectKeys (st.confirm id keys now).subjectKeys :=
  Grown.map fun k _ ↦ by
    split_ifs
    · exact ⟨rfl, rfl, rfl, Or.inr rfl⟩
    · exact SubjectKey.Ages.refl k

theorem Store.confirm_requests_grown (st : Store) (id : ℤ) (keys : List SubjectKey)
    (now : Timestamp) :
    Grown ErasureRequest.Ages st.erasureRequests (st.confirm id keys now).erasureRequests :=
  Grown.map fun r _ ↦ by
    split_ifs
    · exact ⟨rfl, rfl, fun _ ↦ rfl⟩
    · exact ErasureRequest.Ages.refl r

theorem Store.insertSubjectKey_eq_some {st st' : Store} {key : SubjectKey}
    (h : st.insertSubjectKey key = some st') :
    st.subjectKey key.subjectId key.generation = none ∧
      st' = { st with subjectKeys := st.subjectKeys ++ [key] } := by
  rw [insertSubjectKey] at h
  split_ifs at h with htaken
  exact ⟨by simpa using htaken, (Option.some.inj h).symm⟩

/-- **What a step of an encryption can write**: nothing, or the row of a new generation. -/
theorem EncryptStep.effect {F : Fernet} {st st' : Store} {c c' : EncryptCall}
    (h : EncryptStep F st c st' c') :
    st' = st ∨ ∃ s tenantId g keyMaterial now,
      st.insertSubjectKey (st.newSubjectKey s tenantId g keyMaterial now) = some st' := by
  cases h
  case insert s p tenantId g keyMaterial now h =>
    exact Or.inr ⟨s, tenantId, g, keyMaterial, now, h⟩
  all_goals exact Or.inl rfl

/-- An encryption writes to the table of keys and to nothing else. -/
theorem EncryptStep.store_eq {F : Fernet} {st st' : Store} {c c' : EncryptCall}
    (h : EncryptStep F st c st' c') : st' = { st with subjectKeys := st'.subjectKeys } := by
  rcases h.effect with rfl | ⟨s, tenantId, g, keyMaterial, now, hins⟩
  · rfl
  · rw [(Store.insertSubjectKey_eq_some hins).2]

/-- A request writes to the table of requests and to nothing else. -/
theorem RequestStep.store_eq {st st' : Store} {c c' : RequestCall} (h : RequestStep st c st' c') :
    st' = { st with erasureRequests := st'.erasureRequests } := by
  cases h <;> rfl

/-- What a call in the middle of a confirmation knows about the log. -/
def ConfirmCall.Ok (st : Store) : ConfirmCall → Prop
  | .appending _ c => c.Ok st
  | _ => True

variable {st st' : Store}

theorem ConfirmCall.Ok.mono {c : ConfirmCall} (hc : c.Ok st) (h : st.commits <+: st'.commits) :
    c.Ok st' := by
  cases c with
  | appending r c => exact AppendCall.Ok.mono hc h
  | _ => trivial

/-- **One step of a confirmation** keeps the log. -/
theorem ConfirmStep.ok {c c' : ConfirmCall} (h : ConfirmStep st c st' c') (hlog : st.LogOk)
    (hc : c.Ok st) : st'.LogOk ∧ c'.Ok st' ∧ st.commits <+: st'.commits := by
  cases h with
  | commit now => exact ⟨hlog.of_commits_eq rfl, trivial, List.prefix_refl _⟩
  | append hr hfact => exact ⟨hlog, by simp [ConfirmCall.Ok, AppendCall.Ok], List.prefix_refl _⟩
  | appendStep hstep => exact hstep.ok hlog hc
  | _ => exact ⟨hlog, trivial, List.prefix_refl _⟩

/-- **What a step of a confirmation can do to the keys**: nothing, or destroy those it has read. -/
theorem ConfirmStep.effect {c c' : ConfirmCall} (h : ConfirmStep st c st' c') :
    st' = { st with commits := st'.commits } ∨
      ∃ r keys now, c = .keyed r keys ∧ c' = .committed r keys.length ∧
        st' = st.confirm r.id keys now := by
  cases h
  case commit r keys now => exact Or.inr ⟨r, keys, now, rfl, rfl, rfl⟩
  case appendStep r c c' h => exact Or.inl h.store_eq
  all_goals exact Or.inl rfl

/-- A confirmation writes to keys, requests and the log. -/
theorem ConfirmStep.store_eq {c c' : ConfirmCall} (h : ConfirmStep st c st' c') :
    st' = { st with
      commits := st'.commits, subjectKeys := st'.subjectKeys
      erasureRequests := st'.erasureRequests } := by
  rcases h.effect with h | ⟨r, keys, now, -, -, rfl⟩
  · rw [h]
  · rfl

end WiseTraceLoom
