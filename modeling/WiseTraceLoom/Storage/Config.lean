import WiseTraceLoom.Tables

/-!
# The storage configuration

A tenant has a row of its own or uses the global one, and without either a default that is not
stored.  `setStorageConfig` looks for the row and writes it in two statements (`ConfigStep`).

Tables like this one, in which a row is looked up and overwritten by its key, are met with elsewhere
too: `find?_replaceFirst` and `find?_append_of_fresh` say what is found in them after a write.
-/

set_option autoImplicit false

namespace WiseTraceLoom

/-! ## Tables that are written by a key -/

/-- The first row for which `p` holds, replaced by `c`. -/
def replaceFirst {α : Type} (p : α → Bool) (c : α) : List α → List α
  | [] => []
  | a :: l => if p a then c :: l else a :: replaceFirst p c l

theorem mem_replaceFirst {α : Type} {p : α → Bool} {c a : α} {l : List α}
    (h : a ∈ replaceFirst p c l) : a = c ∨ a ∈ l := by
  induction l with
  | nil => exact Or.inr h
  | cons b l ih =>
    rw [replaceFirst] at h
    split_ifs at h
    · exact (List.mem_cons.mp h).imp_right (List.mem_cons_of_mem b)
    · rcases List.mem_cons.mp h with rfl | h
      · exact Or.inr List.mem_cons_self
      · exact (ih h).imp_right (List.mem_cons_of_mem b)

theorem mem_replaceFirst_self {α : Type} {p : α → Bool} (c : α) {l : List α}
    (h : ∃ a ∈ l, p a = true) : c ∈ replaceFirst p c l := by
  induction l with
  | nil => simp at h
  | cons b l ih =>
    rw [replaceFirst]
    split_ifs with hb
    · exact List.mem_cons_self
    · obtain ⟨a, ha, hpa⟩ := h
      rcases List.mem_cons.mp ha with rfl | ha
      · exact absurd hpa hb
      · exact List.mem_cons_of_mem b (ih ⟨a, ha, hpa⟩)

theorem map_replaceFirst {α β : Type} {f : α → β} {p : α → Bool} {c : α}
    (h : ∀ a, p a = true → f a = f c) (l : List α) : (replaceFirst p c l).map f = l.map f := by
  induction l with
  | nil => rfl
  | cons a l ih =>
    rw [replaceFirst]
    split_ifs with ha
    · rw [List.map_cons, List.map_cons, h a ha]
    · rw [List.map_cons, List.map_cons, ih]

/-- Only replacing a row by itself changes nothing. -/
theorem replaceFirst_eq_self {α : Type} {p : α → Bool} {a c : α} {l : List α}
    (h : l.find? p = some a) : replaceFirst p c l = l ↔ c = a := by
  induction l with
  | nil => cases h
  | cons b l ih =>
    rw [replaceFirst]
    split_ifs with hb
    · rw [List.find?_cons_of_pos hb, Option.some_inj] at h
      rw [List.cons.injEq, and_iff_left rfl, h]
    · rw [List.find?_cons_of_neg hb] at h
      rw [List.cons.injEq, and_iff_right rfl, ih h]

section Key

variable {α κ : Type} [DecidableEq κ] {key : α → κ} {c : α} {k : κ}

/-- Another row is found as before. -/
theorem find?_replaceFirst_of_ne (h : key c ≠ k) (l : List α) :
    (replaceFirst (fun a ↦ key a = key c) c l).find? (fun a ↦ key a = k) =
      l.find? fun a ↦ key a = k := by
  induction l with
  | nil => rfl
  | cons a l ih =>
    rw [replaceFirst]
    split_ifs with ha
    · have hne : key a ≠ k := by rwa [of_decide_eq_true ha]
      simp [h, hne]
    · rw [List.find?_cons, List.find?_cons, ih]

/-- **A row that is replaced** is found under its key. -/
theorem find?_replaceFirst {l : List α} (hold : ∃ a ∈ l, key a = key c) (k : κ) :
    (replaceFirst (fun a ↦ key a = key c) c l).find? (fun a ↦ key a = k) =
      if key c = k then some c else l.find? fun a ↦ key a = k := by
  split_ifs with hk
  · subst hk
    induction l with
    | nil => simp at hold
    | cons a l ih =>
      rw [replaceFirst]
      split_ifs with ha
      · simp
      · have hne : ¬key a = key c := by simpa using ha
        obtain ⟨b, hb, hsame⟩ := hold
        have hrest : ∃ a ∈ l, key a = key c :=
          ⟨b, (List.mem_cons.mp hb).resolve_left fun heq ↦ hne (heq ▸ hsame), hsame⟩
        rw [List.find?_cons_of_neg (by simpa using hne)]
        exact ih hrest
  · exact find?_replaceFirst_of_ne hk l

/-- **A row that is added** is found under its key if there was none. -/
theorem find?_append_of_fresh {l : List α} (hfresh : ∀ a ∈ l, key a ≠ key c) (k : κ) :
    (l ++ [c]).find? (fun a ↦ key a = k) =
      if key c = k then some c else l.find? fun a ↦ key a = k := by
  rw [List.find?_append, List.find?_singleton]
  by_cases hk : key c = k
  · have hnone : l.find? (fun a ↦ decide (key a = k)) = none :=
      List.find?_eq_none.mpr fun a ha hak ↦ hfresh a ha ((of_decide_eq_true hak).trans hk.symm)
    simp [hnone, hk]
  · simp [hk]

end Key

/-! ## Configurations -/

/-- The first row of a tenant, `none` for the global row. -/
def Store.configRow (st : Store) (tenantId : Option Str) : Option StorageConfig :=
  st.configs.find? fun row ↦ row.tenantId = tenantId

/-- The configuration nobody has set. -/
def StorageConfig.default : StorageConfig := ⟨none, 10, some 30, none⟩

/-- `_load_storage_config`. -/
def loadStorageConfig (st : Store) (tenantId : Option Str) : StorageConfig :=
  ((tenantId.bind fun t ↦ st.configRow (some t)).or (st.configRow none)).getD .default

/-- The write of `set_storage_config`: an update of the row that was found, or an insert. -/
def Store.writeConfig (st : Store) (config : StorageConfig) (found : Bool) : Store :=
  { st with
    configs :=
      if found then replaceFirst (fun row ↦ row.tenantId = config.tenantId) config st.configs
      else st.configs ++ [config] }

/-- `set_storage_config` on its own. -/
def setStorageConfig (st : Store) (config : StorageConfig) : Store :=
  st.writeConfig config (st.configRow config.tenantId).isSome

/-- Where a call to `set_storage_config` stands. -/
inductive ConfigCall where
  | called (config : StorageConfig)
  | looked (config : StorageConfig) (found : Bool)
  | returned (config : StorageConfig)
  | raised

/-- One step of a call to `set_storage_config`. -/
inductive ConfigStep : Store → ConfigCall → Store → ConfigCall → Prop
  | look {st : Store} {config : StorageConfig} :
      ConfigStep st (.called config) st
        (.looked config (st.configRow config.tenantId).isSome)
  | write {st : Store} {config : StorageConfig} {found : Bool} :
      ConfigStep st (.looked config found) (st.writeConfig config found) (.returned config)
  | fail {st : Store} {c : ConfigCall} : ConfigStep st c st .raised

/-- **What was set is what is read**, by the tenant it was set for. -/
theorem loadStorageConfig_setStorageConfig (st : Store) (config : StorageConfig) :
    loadStorageConfig (setStorageConfig st config) config.tenantId = config := by
  have hrow : (setStorageConfig st config).configRow config.tenantId = some config := by
    rw [setStorageConfig, Store.writeConfig, Store.configRow]
    split_ifs with hfound
    · have hold : ∃ row ∈ st.configs, row.tenantId = config.tenantId := by
        simpa [Store.configRow] using hfound
      exact (find?_replaceFirst hold _).trans (if_pos rfl)
    · have hfresh : ∀ row ∈ st.configs, row.tenantId ≠ config.tenantId := by
        simpa [Store.configRow] using hfound
      exact (find?_append_of_fresh hfresh _).trans (if_pos rfl)
  rw [loadStorageConfig]
  cases htenant : config.tenantId with
  | none =>
    rw [htenant] at hrow
    rw [hrow]
    rfl
  | some t =>
    rw [htenant] at hrow
    rw [Option.bind_some, hrow]
    rfl

/-- Only the configuration is written. -/
theorem ConfigStep.store_eq {st st' : Store} {c c' : ConfigCall} (h : ConfigStep st c st' c') :
    st' = { st with configs := st'.configs } := by
  cases h <;> rfl

end WiseTraceLoom
