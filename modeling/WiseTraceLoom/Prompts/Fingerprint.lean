import WiseTraceLoom.Lib.Lines
import WiseTraceLoom.Prompts.Versions

/-!
# What a fingerprint identifies

`fingerprint_prompt` hashes the normalized template, a null character and the parameters of the
model as JSON.  The template may contain null characters itself; the parameters cannot, as what
`json.dumps` writes is printable, so the text is taken apart at the last one.
-/

set_option autoImplicit false

namespace WiseTraceLoom

/-- The parameters with their keys sorted, as JSON. -/
def normalizedParams (modelParams : Option Payload) : Str :=
  Json.dumps (.obj (modelParams.getD []))

/-- What `fingerprint_prompt` hashes. -/
def fingerprintInput (template : Str) (modelParams : Option Payload) : Str :=
  normalizedTemplate template ++ '\x00' :: normalizedParams modelParams

theorem fingerprintPrompt_eq (template : Str) (modelParams : Option Payload) :
    fingerprintPrompt template modelParams =
      Sha256.hexdigest (fingerprintInput template modelParams) := rfl

/-- **Taking the text apart**: template and parameters can be told from it. -/
theorem fingerprintInput_inj {template template' : Str} {params params' : Option Payload} :
    fingerprintInput template params = fingerprintInput template' params' ↔
      normalizedTemplate template = normalizedTemplate template' ∧
        normalizedParams params = normalizedParams params' := by
  have hnull (p : Option Payload) : '\x00' ∉ normalizedParams p := fun hmem ↦
    absurd (Json.isPrintable_of_mem_dumps hmem) (by decide)
  constructor
  · exact Text.append_sep_inj_right (hnull params) (hnull params')
  · rintro ⟨htemplate, hparams⟩
    rw [fingerprintInput, fingerprintInput, htemplate, hparams]

/-- Normalizing twice is normalizing once. -/
theorem normalizedTemplate_normalizedTemplate (template : Str) :
    normalizedTemplate (normalizedTemplate template) = normalizedTemplate template :=
  congrArg (Text.join ['\n']) (Text.normalLines_rstripLines template).rstripLines_strip_join

/-- A text has the fingerprint of any other one with the same lines after stripping. -/
theorem fingerprintPrompt_congr {template template' : Str} (params : Option Payload)
    (h : Text.rstripLines (Text.strip template) = Text.rstripLines (Text.strip template')) :
    fingerprintPrompt template params = fingerprintPrompt template' params := by
  have hnormal : normalizedTemplate template = normalizedTemplate template' :=
    congrArg (Text.join ['\n']) h
  rw [fingerprintPrompt, fingerprintPrompt, hnormal]

/-- **Fingerprint identity**: as long as SHA-256 tells the two texts apart, the fingerprints are
equal exactly if the normalized templates and the normalized parameters are; normalizing is
idempotent; and neither white space around the template, nor white space at the ends of its lines,
nor the order of the keys of the parameters matters. -/
theorem fingerprint_identity (template template' : Str) (params params' : Option Payload)
    (hsha : Set.InjOn Sha256.hexdigest
      {fingerprintInput template params, fingerprintInput template' params'}) :
    (fingerprintPrompt template params = fingerprintPrompt template' params' ↔
      normalizedTemplate template = normalizedTemplate template' ∧
        normalizedParams params = normalizedParams params') ∧
    normalizedTemplate (normalizedTemplate template) = normalizedTemplate template ∧
    (∀ before after : Str, (∀ c ∈ before, Text.isSpace c = true) →
      (∀ c ∈ after, Text.isSpace c = true) →
      fingerprintPrompt (before ++ template ++ after) params = fingerprintPrompt template params) ∧
    (∀ padded, Text.Padded template padded →
      fingerprintPrompt padded params = fingerprintPrompt template params) ∧
    ∀ reordered, Json.Permuted (.obj (params.getD [])) (.obj reordered) →
      fingerprintPrompt template (some reordered) = fingerprintPrompt template params := by
  refine ⟨?_, normalizedTemplate_normalizedTemplate template, fun before after hb ha ↦ ?_,
    fun padded h ↦ ?_, fun reordered h ↦ ?_⟩
  · rw [fingerprintPrompt_eq, fingerprintPrompt_eq, ← fingerprintInput_inj]
    exact ⟨fun h ↦ hsha (.inl rfl) (.inr rfl) h, congrArg Sha256.hexdigest⟩
  · exact fingerprintPrompt_congr params (by rw [Text.strip_surround template hb ha])
  · exact fingerprintPrompt_congr params h.rstripLines_strip_eq
  · rw [fingerprintPrompt, fingerprintPrompt, h.dumps_eq]
    rfl

/-- Two templates and no parameters. -/
theorem fingerprint_identity_refund :
    fingerprintPrompt "Refund?".toList none ≠ fingerprintPrompt "Refund!".toList none ∧
      fingerprintPrompt ("\n ".toList ++ "Refund?".toList ++ "\r\n".toList) none =
        fingerprintPrompt "Refund?".toList none := by
  have hdigests : Sha256.hexdigest (fingerprintInput "Refund?".toList none) ≠
      Sha256.hexdigest (fingerprintInput "Refund!".toList none) := by decide +kernel
  obtain ⟨hiff, -, hsurround, -⟩ := fingerprint_identity "Refund?".toList "Refund!".toList none none
    (Set.injOn_pair.mpr fun h ↦ absurd h hdigests)
  refine ⟨fun h ↦ absurd (hiff.mp h).1 (by decide), hsurround _ _ (by decide) (by decide)⟩

end WiseTraceLoom
