import WiseTraceLoom.System

/-!
# Crypto-shredding over whole runs

A ciphertext decrypts exactly as long as the row of its key generation holds a key, a confirmed
erasure takes the key away for good, and no generation is ever used again.

The shared invariant is `Store.KeysOk`: the rows of the key table are numbered by their primary key
and no two have the same subject and generation.  The second part is what the unique constraint
gives, and it is also what keeps two racing provisionings of the same generation apart.  Everything
else follows from the rows only ageing: `Store.KeyRow s g m` says that the row of a generation holds
`m` or nothing, and no step of any call can make that false.

Two facts are about one call from some moment on: a confirmation that starts later destroys the
key (`confirm_destroys`), and an encryption that starts after the key is gone uses another
generation (`encrypt_fresh`).  They follow the thread through the run with an assertion about its
local state.
-/

set_option autoImplicit false

namespace WiseTraceLoom

open Interleaving NumberedLog

variable {ι : Type} [DecidableEq ι] {F : Fernet} {st st' : Store}

/-! ## The key table -/

/-- The key table as provisioning and erasing leave it. -/
structure Store.KeysOk (st : Store) : Prop where
  /-- The rows are numbered by their primary key. -/
  ids : Numbered SubjectKey.id st.subjectKeys
  /-- A subject has one row for each generation. -/
  unique : (st.subjectKeys.map fun k ↦ (k.subjectId, k.generation)).Nodup

/-- The row of a generation holds the key `m`, or nothing any more. -/
def Store.KeyRow (st : Store) (s : Str) (g : ℤ) (m : Option Str) : Prop :=
  ∃ k ∈ st.subjectKeys, k.subjectId = s ∧ k.generation = g ∧
    (k.keyMaterial = m ∨ k.keyMaterial = none)

/-- Does the row of a generation hold its key? -/
def Store.HoldsKey (st : Store) (s : Str) (g : ℤ) : Prop :=
  ((st.subjectKey s g).bind SubjectKey.keyMaterial).isSome

instance (s : Str) (g : ℤ) : Decidable (st.HoldsKey s g) := inferInstanceAs (Decidable (_ = true))

/-- `c` is what encrypting `p` under generation `g` of the subject has given. -/
def Store.Encrypted (F : Fernet) (st : Store) (s p : Str) (g : ℤ) (c : Str) : Prop :=
  ∃ key nonce, c = stampCiphertext g (F.encrypt key nonce p) ∧ st.KeyRow s g (some key)

theorem Store.KeyRow.mono {s : Str} {g : ℤ} {m : Option Str} (h : st.KeyRow s g m)
    (hst : st.Grows st') : st'.KeyRow s g m := by
  obtain ⟨k, hk, rfl, rfl, hm⟩ := h
  obtain ⟨k', hk', hage⟩ := hst.subjectKeys.exists_mem hk
  refine ⟨k', hk', hage.subjectId, hage.generation, ?_⟩
  rcases hage.keyMaterial with hsame | hnone
  · rw [hsame]
    exact hm
  · exact Or.inr hnone

theorem Store.Encrypted.mono {s p : Str} {g : ℤ} {c : Str} (h : st.Encrypted F s p g c)
    (hst : st.Grows st') : st'.Encrypted F s p g c := by
  obtain ⟨key, nonce, hc, hrow⟩ := h
  exact ⟨key, nonce, hc, hrow.mono hst⟩

theorem Store.KeysOk.eq_of_generation (h : st.KeysOk) {k k' : SubjectKey}
    (hk : k ∈ st.subjectKeys) (hk' : k' ∈ st.subjectKeys) (hs : k.subjectId = k'.subjectId)
    (hg : k.generation = k'.generation) : k = k' :=
  List.inj_on_of_nodup_map h.unique hk hk' (by rw [hs, hg])

/-- The lookup of a generation finds its only row. -/
theorem Store.KeysOk.subjectKey_eq (h : st.KeysOk) {k : SubjectKey} (hk : k ∈ st.subjectKeys) :
    st.subjectKey k.subjectId k.generation = some k := by
  rw [Store.subjectKey]
  cases hfind : st.subjectKeys.find? fun k' ↦
      k'.subjectId = k.subjectId ∧ k'.generation = k.generation with
  | none => exact absurd (List.find?_eq_none.mp hfind k hk) (by simp)
  | some k' =>
    have hmatch := List.find?_some hfind
    simp only [Bool.decide_and, Bool.and_eq_true, decide_eq_true_eq] at hmatch
    rw [h.eq_of_generation (List.mem_of_find?_eq_some hfind) hk hmatch.1 hmatch.2]

theorem Store.subjectKey_eq_none {s : Str} {g : ℤ} (h : st.subjectKey s g = none) :
    ∀ k ∈ st.subjectKeys, k.subjectId = s → k.generation ≠ g := fun k hk hs hg ↦
  absurd (List.find?_eq_none.mp h k hk) (by simp [hs, hg])

theorem Store.KeysOk.holdsKey_iff (h : st.KeysOk) {k : SubjectKey} (hk : k ∈ st.subjectKeys) :
    st.HoldsKey k.subjectId k.generation ↔ k.keyMaterial.isSome := by
  rw [Store.HoldsKey, h.subjectKey_eq hk, Option.bind_some]

/-- **A destroyed key stays destroyed.** -/
theorem Store.KeysOk.not_holdsKey_mono (h : st.KeysOk) (h' : st'.KeysOk) (hst : st.Grows st')
    {k : SubjectKey} (hk : k ∈ st.subjectKeys) (hlive : ¬ st.HoldsKey k.subjectId k.generation) :
    ¬ st'.HoldsKey k.subjectId k.generation := by
  obtain ⟨k', hk', hage⟩ := hst.subjectKeys.exists_mem hk
  rw [h.holdsKey_iff hk] at hlive
  rw [← hage.subjectId, ← hage.generation, h'.holdsKey_iff hk']
  rcases hage.keyMaterial with hsame | hnone
  · rwa [hsame]
  · simp [hnone]

/-- **Decryption** gives the plaintext as long as the row of the generation holds its key, and
nothing otherwise. -/
theorem Store.Encrypted.decrypt (hF : F.Inverts) (hkeys : st.KeysOk) {s p : Str} {g : ℤ} {c : Str}
    (h : st.Encrypted F s p g c) :
    decryptForSubject F st s c = .ok (if st.HoldsKey s g then some p else none) := by
  obtain ⟨key, nonce, rfl, k, hk, rfl, rfl, hm⟩ := h
  have hdot : '.' ∉ Text.ofInt k.generation := Text.not_mem_ofInt (by decide) (by decide) _
  rw [decryptForSubject, stampCiphertext, Text.partition_append _ hdot]
  simp only [Text.toInt?_ofInt, hkeys.subjectKey_eq hk, Option.bind_some, hkeys.holdsKey_iff hk]
  rcases hm with hm | hm
  · simp [hm, hF key nonce p]
  · simp [hm]

/-! ## Steps -/

theorem Store.KeysOk.nextId (h : st.KeysOk) :
    nextId (st.subjectKeys.map SubjectKey.id) = st.subjectKeys.length + 1 := by
  rw [WiseTraceLoom.nextId, h.ids.max?_getD]

theorem Store.KeysOk.insert (h : st.KeysOk) {s : Str} {tenantId : Option Str} {g : ℤ}
    {keyMaterial : Str} {now : Timestamp}
    (hins : st.insertSubjectKey (st.newSubjectKey s tenantId g keyMaterial now) = some st') :
    st'.KeysOk := by
  obtain ⟨hfresh, rfl⟩ := Store.insertSubjectKey_eq_some hins
  refine ⟨numbered_concat.mpr ⟨h.ids, h.nextId⟩, ?_⟩
  refine nodup_map_concat h.unique fun k hk hkey ↦ ?_
  rw [Prod.mk.injEq] at hkey
  exact Store.subjectKey_eq_none hfresh k hk hkey.1 hkey.2

theorem Store.KeysOk.confirm (h : st.KeysOk) (id : ℤ) (keys : List SubjectKey) (now : Timestamp) :
    (st.confirm id keys now).KeysOk := by
  refine ⟨h.ids.map fun k ↦ by split_ifs <;> rfl, ?_⟩
  have hsame : ((st.confirm id keys now).subjectKeys.map fun k ↦ (k.subjectId, k.generation)) =
      st.subjectKeys.map fun k ↦ (k.subjectId, k.generation) := by
    rw [Store.confirm, List.map_map]
    refine List.map_congr_left fun k _ ↦ ?_
    simp only [Function.comp_apply]
    split_ifs <;> rfl
  rw [hsame]
  exact h.unique

/-- What an encryption knows about the key table. -/
def Call.KeysOk (F : Fernet) (st : Store) : Call → Prop
  | .encrypt (.inserted s _ id) => ∃ k ∈ st.subjectKeys, k.id = id ∧ k.subjectId = s
  | .encrypt (.keyed s _ g m) => st.KeyRow s g m
  | .encrypt (.returned s p g c) => st.Encrypted F s p g c
  | _ => True

theorem Call.KeysOk.mono {c : Call} (hc : c.KeysOk F st) (h : st.Grows st') : c.KeysOk F st' := by
  match c, hc with
  | .encrypt (.inserted s p id), hc =>
    obtain ⟨k, hk, hid, hs⟩ := hc
    obtain ⟨k', hk', hage⟩ := h.subjectKeys.exists_mem hk
    exact ⟨k', hk', hage.id.trans hid, hage.subjectId.trans hs⟩
  | .encrypt (.keyed s p g m), hc => exact Store.KeyRow.mono hc h
  | .encrypt (.returned s p g c), hc => exact Store.Encrypted.mono hc h
  | .idle, _ | .append _, _ | .anchor _, _ | .compact _, _ | .read _, _ | .request _, _ => trivial
  | .confirm _, _ | .config _, _ => trivial
  | .encrypt (.called _ _ _), _ | .encrypt (.missing _ _ _), _ => trivial
  | .encrypt (.fresh _ _ _ _), _ | .encrypt .raised, _ => trivial

/-- The active key is a live row of its subject. -/
theorem Store.activeSubjectKey_mem {s : Str} {k : SubjectKey}
    (h : st.activeSubjectKey s = some k) :
    k ∈ st.subjectKeys ∧ k.subjectId = s ∧ k.keyMaterial.isSome := by
  have hmem := List.mem_of_head? h
  rw [List.mem_insertionSort, Store.liveKeys, List.mem_filter] at hmem
  simpa using hmem

/-- A row that was found by its primary key is the row with this key. -/
theorem Store.KeysOk.find_id (h : st.KeysOk) {id : ℤ} {k k' : SubjectKey}
    (hfind : st.subjectKeys.find? (fun k ↦ k.id = id) = some k) (hk' : k' ∈ st.subjectKeys)
    (hid : k'.id = id) : k = k' ∧ k ∈ st.subjectKeys := by
  have hk := List.mem_of_find?_eq_some hfind
  have hmatch : k.id = id := by simpa using List.find?_some hfind
  exact ⟨NumberedFrom.injOn h.ids hk hk' (hmatch.trans hid.symm), hk⟩

/-- **One step of an encryption.** -/
theorem EncryptStep.keysOk {c c' : EncryptCall} (h : EncryptStep F st c st' c') (hst : st.KeysOk)
    (hc : (Call.encrypt c).KeysOk F st) : st'.KeysOk ∧ (Call.encrypt c').KeysOk F st' := by
  cases h with
  | active hactive =>
    obtain ⟨hk, hs, -⟩ := Store.activeSubjectKey_mem hactive
    exact ⟨hst, _, hk, hs, rfl, Or.inl rfl⟩
  | @insert _ s p tenantId g keyMaterial now hins =>
    refine ⟨hst.insert hins, ?_⟩
    obtain ⟨-, rfl⟩ := Store.insertSubjectKey_eq_some hins
    exact ⟨_, List.mem_append_right _ (List.mem_singleton_self _), rfl, rfl⟩
  | refresh hfind =>
    obtain ⟨k', hk', hid, rfl⟩ := hc
    obtain ⟨rfl, hk⟩ := hst.find_id hfind hk' hid
    exact ⟨hst, _, hk, rfl, rfl, Or.inl rfl⟩
  | encrypt nonce => exact ⟨hst, _, nonce, rfl, hc⟩
  | _ => exact ⟨hst, trivial⟩

/-- Only encryptions and confirmations touch the key table. -/
theorem SystemStep.subjectKeys_eq {c c' : Call} (h : SystemStep F st c st' c') :
    st'.subjectKeys = st.subjectKeys ∨
      (∃ a a', c = .encrypt a ∧ c' = .encrypt a' ∧ EncryptStep F st a st' a') ∨
      ∃ r keys now, c = .confirm (.keyed r keys) ∧ c' = .confirm (.committed r keys.length) ∧
        st' = st.confirm r.id keys now := by
  cases h with
  | encrypt h => exact Or.inr (Or.inl ⟨_, _, rfl, rfl, h⟩)
  | confirm h =>
    rcases h.effect with hsame | ⟨r, keys, now, rfl, rfl, hst'⟩
    · rw [hsame]
      exact Or.inl rfl
    · exact Or.inr (Or.inr ⟨r, keys, now, rfl, rfl, hst'⟩)
  | append h => rw [h.store_eq]; exact Or.inl rfl
  | compact h => rw [h.store_eq]; exact Or.inl rfl
  | anchor h => rw [h.store_eq]; exact Or.inl rfl
  | read h => rw [h.store_eq]; exact Or.inl rfl
  | request h => rw [h.store_eq]; exact Or.inl rfl
  | config h => rw [h.store_eq]; exact Or.inl rfl
  | _ => exact Or.inl rfl

theorem Store.KeysOk.of_eq (h : st.KeysOk) (hst : st'.subjectKeys = st.subjectKeys) : st'.KeysOk :=
  ⟨hst ▸ h.ids, hst ▸ h.unique⟩

/-- **The premises of the rely–guarantee rule.** -/
theorem keys_relyGuarantee (F : Fernet) :
    RelyGuarantee (ι := ι) (SystemStep F) (fun _ ↦ True) Store.Grows Store.KeysOk
      (Call.KeysOk F) where
  step := by
    intro c i st' t' _ _ hst hc hstep
    refine ⟨hstep.grows, ?_⟩
    have hgrows := hstep.grows
    generalize c.shared = st at *
    generalize c.locals i = t at *
    rcases hstep.subjectKeys_eq with hsame | ⟨a, a', rfl, rfl, h⟩ | ⟨r, keys, now, rfl, rfl, rfl⟩
    · refine ⟨hst.of_eq hsame, ?_⟩
      cases hstep with
      | encrypt h => exact (h.keysOk hst hc).2
      | start h => cases h <;> trivial
      | _ => trivial
    · exact h.keysOk hst hc
    · exact ⟨hst.confirm r.id keys now, trivial⟩
  stable := fun _ _ _ hgrows hc ↦ hc.mono hgrows

theorem Reachable.keysOk {c : System ι} (h : Reachable F c) :
    c.shared.KeysOk ∧ ∀ i, (c.locals i).KeysOk F c.shared := by
  obtain ⟨database, hrun⟩ := h
  exact (keys_relyGuarantee F).steps hrun (fun _ _ ↦ trivial)
    ⟨by simp [System.init, Store.create], by simp [System.init, Store.create]⟩ fun _ ↦ trivial

/-! ## A confirmation that starts later -/

/-- A confirmation on the way to destroying the key `k`: as soon as it has read the keys of the
subject, it has this one among them or the key is gone already. -/
def Call.Destroys (st : Store) (k : SubjectKey) : Call → Prop
  | .confirm (.keyed r keys) => r.subjectId = k.subjectId →
      ¬ st.HoldsKey k.subjectId k.generation ∨ k.id ∈ keys.map SubjectKey.id
  | .confirm (.committed r _) => r.subjectId = k.subjectId →
      ¬ st.HoldsKey k.subjectId k.generation
  | _ => True

theorem Call.Destroys.mono {k : SubjectKey} {c : Call} (hc : c.Destroys st k) (h : st.KeysOk)
    (h' : st'.KeysOk) (hst : st.Grows st') {k₀ : SubjectKey} (hk₀ : k₀ ∈ st.subjectKeys)
    (hage : k.Ages k₀) : c.Destroys st' k := by
  have hgone (hlive : ¬ st.HoldsKey k.subjectId k.generation) :
      ¬ st'.HoldsKey k.subjectId k.generation := by
    rw [← hage.subjectId, ← hage.generation] at hlive ⊢
    exact h.not_holdsKey_mono h' hst hk₀ hlive
  match c, hc with
  | .confirm (.keyed r keys), hc => exact fun hr ↦ (hc hr).imp_left hgone
  | .confirm (.committed r n), hc => exact fun hr ↦ hgone (hc hr)
  | .idle, _ | .append _, _ | .anchor _, _ | .compact _, _ | .read _, _ | .request _, _ => trivial
  | .encrypt _, _ | .config _, _ => trivial
  | .confirm (.called _), _ | .confirm (.checked _), _ => trivial
  | .confirm (.appending _ _), _ | .confirm (.returned _), _ | .confirm (.raised _), _ => trivial

/-- **One step of a confirmation.**  The keys it reads are the live ones; the commit destroys those
it has read. -/
theorem ConfirmStep.destroys {k k₀ : SubjectKey} {c c' : ConfirmCall} (h : ConfirmStep st c st' c')
    (hst : st.KeysOk) (hst' : st'.KeysOk) (hgrows : st.Grows st') (hk₀ : k₀ ∈ st.subjectKeys)
    (hage : k.Ages k₀) (hc : (Call.confirm c).Destroys st k) :
    (Call.confirm c').Destroys st' k := by
  cases h with
  | @readKeys r =>
    intro hr
    by_cases hlive : st.HoldsKey k.subjectId k.generation
    · refine Or.inr (List.mem_map.mpr ⟨k₀, ?_, hage.id⟩)
      rw [← hage.subjectId, ← hage.generation, hst.holdsKey_iff hk₀] at hlive
      simp [Store.liveKeys, hk₀, hlive, hage.subjectId, hr]
    · exact Or.inl hlive
  | @commit r keys now =>
    intro hr
    rcases hc hr with hlive | hread
    · rw [← hage.subjectId, ← hage.generation] at hlive ⊢
      exact hst.not_holdsKey_mono hst' hgrows hk₀ hlive
    · have hk₁ : k₀.destroy now ∈ (st.confirm r.id keys now).subjectKeys := by
        refine List.mem_map.mpr ⟨k₀, hk₀, ?_⟩
        rw [hage.id, if_pos hread]
      have hgone := hst'.holdsKey_iff hk₁
      rw [SubjectKey.destroy] at hgone
      rw [← hage.subjectId, ← hage.generation, hgone]
      simp
  | _ => trivial

/-- **A confirmation that starts later destroys the key.** -/
theorem confirm_destroys {c d : System ι} (hc : Reachable F c) {k : SubjectKey}
    (hk : k ∈ c.shared.subjectKeys) {j : ι} {id : ℤ} (hj : c.locals j = .confirm (.called id))
    (h : Runs F c d) : (d.locals j).Destroys d.shared k := by
  refine Steps.follow j h (M := fun st c ↦ c.Destroys st k) ?_ ?_ (by rw [hj]; trivial)
  · intro e st' t' hce hM hstep
    have hkeys := (hc.trans hce).keysOk.1
    have hkeys' := (hc.trans (Steps.thread hce j hstep)).keysOk.1
    obtain ⟨k₀, hk₀, hage⟩ := (Runs.grows hce).subjectKeys.exists_mem hk
    have hgrows := hstep.grows
    generalize e.locals j = t at *
    cases hstep with
    | confirm h => exact h.destroys hkeys hkeys' hgrows hk₀ hage hM
    | start h => cases h <;> trivial
    | _ => trivial
  · intro e i st' t' hce hM hstep
    obtain ⟨k₀, hk₀, hage⟩ := (Runs.grows hce).subjectKeys.exists_mem hk
    exact hM.mono (hc.trans hce).keysOk.1 (hc.trans (Steps.thread hce i hstep)).keysOk.1
      hstep.grows hk₀ hage

/-! ## An encryption that starts later -/

/-- An encryption that has nothing to do with the key `k`. -/
def Call.Avoids (k : SubjectKey) : Call → Prop
  | .encrypt (.inserted s _ id) => s = k.subjectId → id ≠ k.id
  | .encrypt (.keyed s _ g _) => s = k.subjectId → g ≠ k.generation
  | .encrypt (.returned s _ g _) => s = k.subjectId → g ≠ k.generation
  | _ => True

/-- **One step of an encryption** while the key is gone: the active key is another one, and so is a
new one. -/
theorem EncryptStep.avoids {k k₀ : SubjectKey} {c c' : EncryptCall} (h : EncryptStep F st c st' c')
    (hst : st.KeysOk) (hcall : (Call.encrypt c).KeysOk F st) (hk₀ : k₀ ∈ st.subjectKeys)
    (hage : k.Ages k₀) (hgone : ¬ st.HoldsKey k.subjectId k.generation)
    (hc : (Call.encrypt c).Avoids k) : (Call.encrypt c').Avoids k := by
  cases h with
  | @active s p tenantId key hactive =>
    intro hs hg
    obtain ⟨hkey, hkeys, hlive⟩ := Store.activeSubjectKey_mem hactive
    rw [← hs, ← hkeys, ← hg, hst.holdsKey_iff hkey] at hgone
    exact hgone hlive
  | @insert _ s p tenantId g keyMaterial now hins =>
    intro hs hid
    have hnew : (st.newSubjectKey s tenantId g keyMaterial now).id = st.subjectKeys.length + 1 :=
      hst.nextId
    have hle := (hst.ids.bounds hk₀).2
    rw [hage.id] at hle
    omega
  | @refresh s p id key hfind =>
    intro hs hg
    obtain ⟨k', hk', hid, hs'⟩ := hcall
    obtain ⟨rfl, hkey⟩ := hst.find_id hfind hk' hid
    have hsame : key = k₀ := hst.eq_of_generation hkey hk₀ (by rw [hs', hs, hage.subjectId])
      (by rw [hg, hage.generation])
    exact hc hs (by rw [← hid, hsame, hage.id])
  | encrypt nonce => exact hc
  | _ => trivial

/-- **An encryption that starts after the key is gone uses another generation.** -/
theorem encrypt_fresh {c d : System ι} (hc : Reachable F c) {k : SubjectKey}
    (hk : k ∈ c.shared.subjectKeys) (hgone : ¬ c.shared.HoldsKey k.subjectId k.generation) {j : ι}
    {s p : Str} {tenantId : Option Str} (hj : c.locals j = .encrypt (.called s p tenantId))
    (h : Runs F c d) : (d.locals j).Avoids k := by
  refine Steps.follow j h (M := fun _ c ↦ c.Avoids k) ?_ (fun _ _ _ _ _ hM _ ↦ hM)
    (by rw [hj]; trivial)
  intro e st' t' hce hM hstep
  obtain ⟨hkeys, hlocals⟩ := (hc.trans hce).keysOk
  obtain ⟨k₀, hk₀, hage⟩ := (Runs.grows hce).subjectKeys.exists_mem hk
  have hgone' := hc.keysOk.1.not_holdsKey_mono hkeys (Runs.grows hce) hk hgone
  have hcall := hlocals j
  generalize e.locals j = t at *
  cases hstep with
  | encrypt h => exact h.avoids hkeys hcall hk₀ hage hgone' hM
  | start h => cases h <;> trivial
  | _ => trivial

/-! ## Shredding -/

/-- The row of a generation is its only one. -/
theorem Store.KeysOk.filter_length (h : st.KeysOk) {k : SubjectKey} (hk : k ∈ st.subjectKeys) :
    (st.subjectKeys.filter fun k' ↦
      k'.subjectId = k.subjectId ∧ k'.generation = k.generation).length = 1 := by
  have hcount := List.count_eq_one_of_mem h.unique (List.mem_map_of_mem hk)
  rw [List.count, List.countP_map, List.countP_eq_length_filter] at hcount
  rw [← hcount]
  refine congrArg _ (List.filter_congr fun k' _ ↦ ?_)
  rw [Bool.eq_iff_iff, decide_eq_true_iff, Function.comp_apply, beq_iff_eq, Prod.mk.injEq]

/-- **Crypto-shredding over any interleaving.**  A ciphertext that an encryption has returned
decrypts to its plaintext in exactly the later states in which the row of its generation holds the
key.  That row is the only one of its generation, and a key that is gone does not come back.  A
confirmation for the subject that starts later and commits makes the ciphertext undecryptable for
good, and an encryption that starts when the key is gone does not use the generation. -/
theorem shredding (hF : F.Inverts) {c : System ι} (hc : Reachable F c) {i : ι} {s p ct : Str}
    {g : ℤ} (hi : c.locals i = .encrypt (.returned s p g ct)) {d : System ι} (hcd : Runs F c d) :
    decryptForSubject F d.shared s ct = .ok (if d.shared.HoldsKey s g then some p else none) ∧
      (d.shared.subjectKeys.filter fun k ↦ k.subjectId = s ∧ k.generation = g).length = 1 ∧
      (¬ d.shared.HoldsKey s g → ∀ e, Runs F d e → ¬ e.shared.HoldsKey s g) ∧
      (∀ j id, d.locals j = .confirm (.called id) → ∀ e r n, Runs F d e →
        e.locals j = .confirm (.committed r n) → r.subjectId = s →
        ∀ f, Runs F e f → decryptForSubject F f.shared s ct = .ok none) ∧
      (¬ d.shared.HoldsKey s g → ∀ j p' tenantId, d.locals j = .encrypt (.called s p' tenantId) →
        ∀ e p'' g' ct', Runs F d e → e.locals j = .encrypt (.returned s p'' g' ct') →
        g' ≠ g) := by
  have henc : c.shared.Encrypted F s p g ct := by
    have := hc.keysOk.2 i
    rwa [hi] at this
  have hd := hc.trans hcd
  have hdecrypt (e : System ι) (he : Runs F d e) : decryptForSubject F e.shared s ct =
      .ok (if e.shared.HoldsKey s g then some p else none) :=
    (henc.mono (Runs.grows (hcd.trans he))).decrypt hF (hd.trans he).keysOk.1
  obtain ⟨key, nonce, -, k, hk, rfl, rfl, -⟩ := henc.mono hcd.grows
  have hgone (e f : System ι) (he : Runs F d e) (hef : Runs F e f)
      (hlive : ¬ e.shared.HoldsKey k.subjectId k.generation) :
      ¬ f.shared.HoldsKey k.subjectId k.generation := by
    obtain ⟨k₀, hk₀, hage⟩ := he.grows.subjectKeys.exists_mem hk
    rw [← hage.subjectId, ← hage.generation] at hlive ⊢
    exact (hd.trans he).keysOk.1.not_holdsKey_mono ((hd.trans he).trans hef).keysOk.1 hef.grows hk₀
      hlive
  refine ⟨hdecrypt d .refl, hd.keysOk.1.filter_length hk, fun hlive e he ↦ hgone d e .refl he hlive,
    fun j id hj e r n he hcommitted hr f hef ↦ ?_,
    fun hlive j p' tenantId hj e p'' g' ct' he hreturned ↦ ?_⟩
  · have hdestroys := confirm_destroys hd hk hj he
    rw [hcommitted] at hdestroys
    rw [hdecrypt f (he.trans hef), if_neg (hgone e f he hef (hdestroys hr))]
  · have havoids := encrypt_fresh hd hk hlive hj he
    rw [hreturned] at havoids
    exact havoids rfl

/-! ### One subject

Its plaintext is encrypted, its erasure is confirmed, and it gets a new key. -/

/-- The subject. -/
def alice : Str := "alice".toList

/-- Its plaintext. -/
def alicePlaintext : Str := "alice@example.com".toList

/-- The random bytes of both encryptions, which happen at noon. -/
def aliceNonce : Str := "101112131415161718191a1b1c1d1e1f".toList

/-- Its first key. -/
def aliceKey₁ : Str := "AAECAwQFBgcICQoLDA0ODxAREhMUFRYXGBkaGxwdHh8=".toList

/-- Its second key. -/
def aliceKey₂ : Str := "ICEiIyQlJicoKSorLC0uLzAxMjM0NTY3ODk6Ozw9Pj8=".toList

/-- The token of the plaintext under the first key. -/
def aliceToken₁ : Str :=
  ("gAAAAABpVmHAEBESExQVFhcYGRobHB0eH2S4sMnQpCKeTE7KsVLWV3uscsQbqny9Ex8n87T1hhvrw79OC5aw7gLQNC" ++
    "-Zk3SoSLclE2Y00lBgvJHIf4qCUw0=").toList

/-- The token of the plaintext under the second key. -/
def aliceToken₂ : Str :=
  ("gAAAAABpVmHAEBESExQVFhcYGRobHB0eH4mb0vn6tcIcQXcqLEDJp0r4sl680NSz10Z4yKPGtfPRzAmfMDHu2hubMH" ++
    "8-stp_TInN0yNWUA7jjnCPstLXHjQ=").toList

/-- The cipher on the plaintext under the two keys.  It marks anything else. -/
def aliceFernet : Fernet where
  encrypt key nonce p :=
    if nonce = aliceNonce ∧ p = alicePlaintext ∧ key = aliceKey₁ then aliceToken₁
    else if nonce = aliceNonce ∧ p = alicePlaintext ∧ key = aliceKey₂ then aliceToken₂
    else '!' :: p
  decrypt key token :=
    if token = aliceToken₁ then if key = aliceKey₁ then some alicePlaintext else none
    else if token = aliceToken₂ then if key = aliceKey₂ then some alicePlaintext else none
    else token.tail?

theorem aliceKey₂_ne : aliceKey₂ ≠ aliceKey₁ := by decide +kernel

theorem aliceFernet_encrypt₁ :
    aliceFernet.encrypt aliceKey₁ aliceNonce alicePlaintext = aliceToken₁ := by simp [aliceFernet]

theorem aliceFernet_encrypt₂ :
    aliceFernet.encrypt aliceKey₂ aliceNonce alicePlaintext = aliceToken₂ := by
  simp [aliceFernet, aliceKey₂_ne]

theorem aliceFernet_inverts : aliceFernet.Inverts := by
  intro key nonce p
  by_cases h₁ : nonce = aliceNonce ∧ p = alicePlaintext ∧ key = aliceKey₁
  · obtain ⟨rfl, rfl, rfl⟩ := h₁
    rw [aliceFernet_encrypt₁]
    simp [aliceFernet]
  by_cases h₂ : nonce = aliceNonce ∧ p = alicePlaintext ∧ key = aliceKey₂
  · obtain ⟨rfl, rfl, rfl⟩ := h₂
    have hne : aliceToken₂ ≠ aliceToken₁ := by decide +kernel
    rw [aliceFernet_encrypt₂]
    simp [aliceFernet, hne]
  · have hmark {l : Str} (hl : l.head? = some 'g') : '!' :: p ≠ l := by
      rintro rfl
      simp at hl
    have hmark₁ : '!' :: p ≠ aliceToken₁ := hmark (by decide +kernel)
    have hmark₂ : '!' :: p ≠ aliceToken₂ := hmark (by decide +kernel)
    simp only [aliceFernet, if_neg h₁, if_neg h₂, if_neg hmark₁, if_neg hmark₂, List.tail?]

/-- The ciphertext of the first encryption. -/
def aliceCiphertext₁ : Str := stampCiphertext 1 aliceToken₁

/-- The ciphertext of the second encryption. -/
def aliceCiphertext₂ : Str := stampCiphertext 2 aliceToken₂

/-- The row of the first key. -/
def aliceRow₁ : SubjectKey :=
  (Store.create "store.db".toList).newSubjectKey alice none 1 aliceKey₁ noon

/-- The store with the first key. -/
def aliceStart : Store := { Store.create "store.db".toList with subjectKeys := [aliceRow₁] }

/-- The erasure request. -/
def aliceRequest : ErasureRequest := (aliceStart.insertErasureRequest alice none none none noon).1

/-- The store when the request has been made. -/
def aliceRequested : Store := (aliceStart.insertErasureRequest alice none none none noon).2

/-- The store when the request has been confirmed. -/
def aliceErased : Store := aliceRequested.confirm aliceRequest.id [aliceRow₁] noon

/-- The row of the second key. -/
def aliceRow₂ : SubjectKey := aliceErased.newSubjectKey alice none 2 aliceKey₂ noon

/-- The store with the second key. -/
def aliceEnd : Store := { aliceErased with subjectKeys := aliceErased.subjectKeys ++ [aliceRow₂] }

/-- One thread has encrypted the plaintext. -/
theorem alice_encrypted : ∃ c : System Bool, Reachable aliceFernet c ∧ c.shared = aliceStart ∧
    c.locals false = .encrypt (.returned alice alicePlaintext 1 aliceCiphertext₁) := by
  let new := Store.create "store.db".toList
  have hactive : EncryptStep aliceFernet new (.called alice alicePlaintext none) new
      (.missing alice alicePlaintext none) := .noActive rfl
  have hgeneration : EncryptStep aliceFernet new (.missing alice alicePlaintext none) new
      (.fresh alice alicePlaintext none 1) := .readGeneration
  have hnew : new.insertSubjectKey aliceRow₁ = some aliceStart := rfl
  have hinsert : EncryptStep aliceFernet new (.fresh alice alicePlaintext none 1) aliceStart
      (.inserted alice alicePlaintext aliceRow₁.id) := .insert aliceKey₁ noon hnew
  have hrefresh : EncryptStep aliceFernet aliceStart (.inserted alice alicePlaintext aliceRow₁.id)
      aliceStart (.keyed alice alicePlaintext 1 (some aliceKey₁)) :=
    .refresh (show aliceStart.subjectKeys.find? _ = some aliceRow₁ from rfl)
  have hencrypt : EncryptStep aliceFernet aliceStart
      (.keyed alice alicePlaintext 1 (some aliceKey₁)) aliceStart
      (.returned alice alicePlaintext 1 aliceCiphertext₁) := by
    rw [aliceCiphertext₁, ← aliceFernet_encrypt₁]
    exact .encrypt aliceNonce
  have h0 : Runs aliceFernet (System.init Bool "store.db".toList) _ := .refl
  have h1 := Steps.thread h0 false (.start (.encrypt alice alicePlaintext none))
  have h2 := Steps.thread h1 false (.encrypt hactive)
  have h3 := Steps.thread h2 false (.encrypt hgeneration)
  have h4 := Steps.thread h3 false (.encrypt hinsert)
  have h5 := Steps.thread h4 false (.encrypt hrefresh)
  have h6 := Steps.thread h5 false (.encrypt hencrypt)
  exact ⟨_, ⟨_, h6⟩, rfl, rfl⟩

/-- The other thread requests the erasure and starts to confirm it. -/
theorem alice_requested {c : System Bool} (hst : c.shared = aliceStart) :
    ∃ d, Runs aliceFernet c d ∧ d.shared = aliceRequested ∧
      d.locals true = .confirm (.called aliceRequest.id) := by
  have hinsert : RequestStep c.shared (.called alice none none none) aliceRequested
      (.inserted aliceRequest) := by
    rw [hst]
    exact .insert noon
  have h1 := Steps.thread (.refl : Runs aliceFernet c c) true .stop
  have h2 := Steps.thread h1 true (.start (.request alice none none none))
  have h3 := Steps.thread h2 true (.request hinsert)
  have h4 := Steps.thread h3 true .stop
  have h5 := Steps.thread h4 true (.start (.confirm aliceRequest.id))
  exact ⟨_, h5, rfl, rfl⟩

/-- The confirmation commits. -/
theorem alice_erased {d : System Bool} (hst : d.shared = aliceRequested)
    (hcall : d.locals true = .confirm (.called aliceRequest.id)) :
    ∃ e, Runs aliceFernet d e ∧ e.shared = aliceErased ∧
      e.locals true = .confirm (.committed aliceRequest 1) := by
  have hcheck : ConfirmStep d.shared (.called aliceRequest.id) d.shared
      (.checked aliceRequest) := by
    rw [hst]
    exact .check rfl rfl
  have hread : ConfirmStep d.shared (.checked aliceRequest) d.shared
      (.keyed aliceRequest [aliceRow₁]) := by
    rw [hst]
    exact .readKeys
  have hcommit : ConfirmStep d.shared (.keyed aliceRequest [aliceRow₁]) aliceErased
      (.committed aliceRequest 1) := by
    rw [hst]
    exact .commit noon
  have hstart : SystemStep aliceFernet d.shared (d.locals true) d.shared
      (.confirm (.checked aliceRequest)) := by
    rw [hcall]
    exact .confirm hcheck
  have h1 := Steps.thread (.refl : Runs aliceFernet d d) true hstart
  have h2 := Steps.thread h1 true (.confirm hread)
  have h3 := Steps.thread h2 true (.confirm hcommit)
  exact ⟨_, h3, rfl, rfl⟩

/-- The plaintext is encrypted again. -/
theorem alice_returns {e : System Bool} (hst : e.shared = aliceErased) :
    ∃ f g, Runs aliceFernet e f ∧ f.shared = aliceErased ∧
      f.locals true = .encrypt (.called alice alicePlaintext none) ∧ Runs aliceFernet f g ∧
      g.locals true = .encrypt (.returned alice alicePlaintext 2 aliceCiphertext₂) := by
  have hactive : EncryptStep aliceFernet e.shared (.called alice alicePlaintext none) e.shared
      (.missing alice alicePlaintext none) := by
    rw [hst]
    exact .noActive rfl
  have hgeneration : EncryptStep aliceFernet e.shared (.missing alice alicePlaintext none) e.shared
      (.fresh alice alicePlaintext none 2) := by
    rw [hst]
    exact .readGeneration
  have hnew : aliceErased.insertSubjectKey aliceRow₂ = some aliceEnd := rfl
  have hinsert : EncryptStep aliceFernet e.shared (.fresh alice alicePlaintext none 2) aliceEnd
      (.inserted alice alicePlaintext aliceRow₂.id) := by
    rw [hst]
    exact .insert aliceKey₂ noon hnew
  have hrefresh : EncryptStep aliceFernet aliceEnd (.inserted alice alicePlaintext aliceRow₂.id)
      aliceEnd (.keyed alice alicePlaintext 2 (some aliceKey₂)) :=
    .refresh (show aliceEnd.subjectKeys.find? _ = some aliceRow₂ from rfl)
  have hencrypt : EncryptStep aliceFernet aliceEnd
      (.keyed alice alicePlaintext 2 (some aliceKey₂)) aliceEnd
      (.returned alice alicePlaintext 2 aliceCiphertext₂) := by
    rw [aliceCiphertext₂, ← aliceFernet_encrypt₂]
    exact .encrypt aliceNonce
  have h1 := Steps.thread (.refl : Runs aliceFernet e e) true .stop
  have h2 := Steps.thread h1 true (.start (.encrypt alice alicePlaintext none))
  let f :=
    (e.set true e.shared .idle).set true e.shared (.encrypt (.called alice alicePlaintext none))
  have h3 := Steps.thread (.refl : Runs aliceFernet f f) true (.encrypt hactive)
  have h4 := Steps.thread h3 true (.encrypt hgeneration)
  have h5 := Steps.thread h4 true (.encrypt hinsert)
  have h6 := Steps.thread h5 true (.encrypt hrefresh)
  have h7 := Steps.thread h6 true (.encrypt hencrypt)
  exact ⟨f, _, h2, hst, rfl, h7, rfl⟩

/-- The ciphertext was readable, is not readable any more, and the new one is under another
generation. -/
theorem alice_shredded : ∃ c e g : System Bool, Reachable aliceFernet c ∧
    decryptForSubject aliceFernet c.shared alice aliceCiphertext₁ = .ok (some alicePlaintext) ∧
    Runs aliceFernet c e ∧ Runs aliceFernet e g ∧
    decryptForSubject aliceFernet g.shared alice aliceCiphertext₁ = .ok none ∧
    g.locals true = .encrypt (.returned alice alicePlaintext 2 aliceCiphertext₂) ∧
    (2 : ℤ) ≠ 1 := by
  obtain ⟨c, hc, hstart, hreturned⟩ := alice_encrypted
  obtain ⟨d, hcd, hrequested, hcall⟩ := alice_requested hstart
  obtain ⟨e, hde, herased, hcommitted⟩ := alice_erased hrequested hcall
  obtain ⟨f, g, hef, herased', hcall', hfg, hreturned'⟩ := alice_returns herased
  have hreadable := (shredding aliceFernet_inverts hc hreturned .refl).1
  have hlive : c.shared.HoldsKey alice 1 := by
    rw [hstart]
    decide
  rw [if_pos hlive] at hreadable
  have hgone := (shredding aliceFernet_inverts hc hreturned hcd).2.2.2.1 true aliceRequest.id hcall
    e aliceRequest 1 hde hcommitted rfl g (hef.trans hfg)
  have hdestroyed : ¬ f.shared.HoldsKey alice 1 := by
    rw [herased']
    decide
  have hfresh := (shredding aliceFernet_inverts hc hreturned ((hcd.trans hde).trans hef)).2.2.2.2
    hdestroyed true alicePlaintext none hcall' g alicePlaintext 2 aliceCiphertext₂ hfg hreturned'
  exact ⟨c, e, g, hc, hreadable, hcd.trans hde, hef.trans hfg, hgone, hreturned', hfresh⟩

end WiseTraceLoom
