import WiseTraceLoom.Cost
import WiseTraceLoom.Instrumentation.Entered
import WiseTraceLoom.Lib.Tally

/-!
# Cost attribution

When the body of an `llm_call` block has ended, `_attribute_cost` settles what the call has cost
and adds it to the total of the tenant and the day.  The cost is the one the host has set, else the
price of the tenant or of everyone applied to the tokens; without either there is no cost.

## What is here

* `getPricingConfig`, `estimateCostUsd` and the write of `set_pricing_config`.
* `SpendStep`, what blocks, calls to `record_spend` and calls to `set_pricing_config` do one after
  the other.  Every block is a process of its own, so that blocks are nested within a thread, run
  in several threads, and end in any order; and a body may end in an exception at any time.
* `daily_spend_attribution`, that every total is what was recorded directly, and for every block
  that has ended its cost, once.
* `attributeCost_steps`, that the steps of a block do what the function `attributeCost` does.

Amounts are exact, and no query and no write fails.  The day on which a block has ended is the one
`record_spend` reads on the way out of the block.
-/

set_option autoImplicit false

namespace WiseTraceLoom

open Interleaving

/-! ## Prices -/

/-- What 1000 tokens cost at a model of a provider, for a tenant or for everyone. -/
structure PricingConfig where
  /-- The tenant, `none` for the global row. -/
  tenantId : Option Str
  /-- The provider. -/
  providerName : Str
  /-- The model. -/
  requestModel : Str
  /-- For tokens of the prompt. -/
  inputCostPer1kUsd : ℚ
  /-- For tokens of the answer. -/
  outputCostPer1kUsd : ℚ
  /-- For tokens read from a cache. -/
  cacheReadCostPer1kUsd : ℚ
  /-- For tokens written to a cache. -/
  cacheCreationCostPer1kUsd : ℚ
  deriving DecidableEq

/-- What a row is found by. -/
def PricingConfig.key (row : PricingConfig) : Option Str × Str × Str :=
  (row.tenantId, row.providerName, row.requestModel)

/-- The first row of a tenant, or of everyone, for a model. -/
def pricingRow (prices : List PricingConfig) (tenantId : Option Str)
    (providerName requestModel : Str) : Option PricingConfig :=
  prices.find? fun row ↦ row.key = (tenantId, providerName, requestModel)

/-- `get_pricing_config`. -/
def getPricingConfig (prices : List PricingConfig) (providerName requestModel : Str)
    (tenantId : Option Str) : Option PricingConfig :=
  (tenantId.bind fun t ↦ pricingRow prices (some t) providerName requestModel).or
    (pricingRow prices none providerName requestModel)

/-- What the price of a model is applied to: the four token counts. -/
def PricingConfig.costUsd (pricing : PricingConfig) (inputTokens outputTokens
    cacheReadInputTokens cacheCreationInputTokens : Option ℤ) : ℚ :=
  inputTokens.getD 0 / 1000 * pricing.inputCostPer1kUsd +
    outputTokens.getD 0 / 1000 * pricing.outputCostPer1kUsd +
    cacheReadInputTokens.getD 0 / 1000 * pricing.cacheReadCostPer1kUsd +
    cacheCreationInputTokens.getD 0 / 1000 * pricing.cacheCreationCostPer1kUsd

/-- `estimate_cost_usd`. -/
def estimateCostUsd (prices : List PricingConfig) (providerName requestModel : Str)
    (tenantId : Option Str) (inputTokens outputTokens cacheReadInputTokens
    cacheCreationInputTokens : Option ℤ) : Option ℚ :=
  (getPricingConfig prices providerName requestModel tenantId).map fun pricing ↦
    pricing.costUsd inputTokens outputTokens cacheReadInputTokens cacheCreationInputTokens

/-- What the tokens of a span cost. -/
def PricingConfig.spanCost (pricing : PricingConfig) (span : LLMSpan ℚ) : ℚ :=
  pricing.costUsd span.inputTokens span.outputTokens span.cacheReadInputTokens
    span.cacheCreationInputTokens

/-- `get_pricing_config` as `_attribute_cost` calls it. -/
def LLMSpan.pricing (span : LLMSpan ℚ) (prices : List PricingConfig) : Option PricingConfig :=
  getPricingConfig prices span.providerName span.requestModel span.tenantId

/-- The row of a tenant, or of everyone, for the model of a span. -/
def LLMSpan.pricingRow (span : LLMSpan ℚ) (prices : List PricingConfig)
    (tenantId : Option Str) : Option PricingConfig :=
  WiseTraceLoom.pricingRow prices tenantId span.providerName span.requestModel

/-- `estimate_cost_usd` as `_attribute_cost` calls it. -/
def LLMSpan.estimate (span : LLMSpan ℚ) (prices : List PricingConfig) : Option ℚ :=
  estimateCostUsd prices span.providerName span.requestModel span.tenantId span.inputTokens
    span.outputTokens span.cacheReadInputTokens span.cacheCreationInputTokens

theorem LLMSpan.estimate_eq (span : LLMSpan ℚ) (prices : List PricingConfig) :
    span.estimate prices = (span.pricing prices).map fun pricing ↦ pricing.spanCost span := rfl

/-! ## Blocks and calls -/

/-- The tables that costs are about. -/
structure CostTables where
  /-- The totals. -/
  store : CostStore
  /-- The prices. -/
  prices : List PricingConfig

/-- The upsert of `record_spend`. -/
def CostTables.recordSpend (st : CostTables) (tenantId spendDate : Str) (amountUsd : ℚ) :
    CostTables :=
  { st with store := st.store.recordSpend tenantId spendDate amountUsd }

/-- The write of `set_pricing_config`: an update of the row that was found, or an insert. -/
def CostTables.writePricing (st : CostTables) (row : PricingConfig) (found : Bool) : CostTables :=
  { st with
    prices :=
      if found then replaceFirst (fun old ↦ old.key = row.key) row st.prices
      else st.prices ++ [row] }

/-- A block whose body has ended. -/
structure Ending where
  /-- Has the body raised? -/
  raised : Bool
  /-- The span, as the host has left it. -/
  host : LLMSpan ℚ

/-- Where a block stands, or a call to `record_spend` or `set_pricing_config`. -/
inductive SpendCall where
  | idle
  /-- The body of an `llm_call` runs. -/
  | opened (span : LLMSpan ℚ)
  /-- `_attribute_cost` is called. -/
  | ended (e : Ending)
  /-- `get_pricing_config` has found no price of the tenant itself. -/
  | searching (e : Ending)
  /-- `estimated_cost_usd` is what it will be.  If a price was looked for, `pricing` is what was
  found. -/
  | costed (e : Ending) (pricing : Option PricingConfig) (span : LLMSpan ℚ)
  /-- The block has been left. -/
  | left (e : Ending) (pricing : Option PricingConfig) (span : LLMSpan ℚ) (day : Str)
  /-- The host has called `record_spend`. -/
  | spent (tenantId spendDate : Str) (amountUsd : ℚ)
  /-- `set_pricing_config` has looked for the row. -/
  | repricing (row : PricingConfig) (found : Bool)
  | repriced (row : PricingConfig)

/-- One step of a block or a call. -/
inductive SpendStep : CostTables → SpendCall → CostTables → SpendCall → Prop
  | enter {st : CostTables} (span : LLMSpan ℚ) (h : span.estimatedCostUsd = none) :
      SpendStep st .idle st (.opened span)
  -- the host sets fields of the span, at any time while the body runs
  | edit {st : CostTables} {span : LLMSpan ℚ} (edit : LLMSpan ℚ → LLMSpan ℚ) :
      SpendStep st (.opened span) st (.opened (edit span))
  | finish {st : CostTables} {span : LLMSpan ℚ} (raised : Bool) :
      SpendStep st (.opened span) st (.ended ⟨raised, span⟩)
  | hostCost {st : CostTables} {e : Ending} (h : e.host.estimatedCostUsd ≠ none) :
      SpendStep st (.ended e) st (.costed e none e.host)
  | ownPrice {st : CostTables} {e : Ending} {t : Str} {row : PricingConfig}
      (h : e.host.estimatedCostUsd = none) (htenant : e.host.tenantId = some t)
      (hrow : e.host.pricingRow st.prices (some t) = some row) :
      SpendStep st (.ended e) st
        (.costed e (some row) { e.host with estimatedCostUsd := some (row.spanCost e.host) })
  | noOwnPrice {st : CostTables} {e : Ending} (h : e.host.estimatedCostUsd = none)
      (hrow : ∀ t, e.host.tenantId = some t → e.host.pricingRow st.prices (some t) = none) :
      SpendStep st (.ended e) st (.searching e)
  | globalPrice {st : CostTables} {e : Ending} :
      SpendStep st (.searching e) st
        (.costed e (e.host.pricingRow st.prices none)
          { e.host with
            estimatedCostUsd :=
              (e.host.pricingRow st.prices none).map fun row ↦ row.spanCost e.host })
  | record {st : CostTables} {e : Ending} {pricing : Option PricingConfig} {span : LLMSpan ℚ}
      {t : Str} {cost : ℚ} (htenant : span.tenantId = some t)
      (hcost : span.estimatedCostUsd = some cost) (day : Str) :
      SpendStep st (.costed e pricing span) (st.recordSpend t day cost) (.left e pricing span day)
  | nothing {st : CostTables} {e : Ending} {pricing : Option PricingConfig} {span : LLMSpan ℚ}
      (h : span.estimatedCostUsd = none ∨ span.tenantId = none) (day : Str) :
      SpendStep st (.costed e pricing span) st (.left e pricing span day)
  | spend {st : CostTables} (t day : Str) (amount : ℚ) :
      SpendStep st .idle (st.recordSpend t day amount) (.spent t day amount)
  | reprice {st : CostTables} (row : PricingConfig) :
      SpendStep st .idle st
        (.repricing row
          (pricingRow st.prices row.tenantId row.providerName row.requestModel).isSome)
  | writePricing {st : CostTables} {row : PricingConfig} {found : Bool} :
      SpendStep st (.repricing row found) (st.writePricing row found) (.repriced row)

variable {st st' : CostTables} {c c' : SpendCall}

/-! ## What a step adds to the totals -/

/-- What a call to `record_spend` adds to the total of a tenant on a day. -/
def SpendCall.direct (t d : Str) : SpendCall → ℚ
  | .spent tenantId spendDate amount => if (t, d) = (tenantId, spendDate) then amount else 0
  | _ => 0

/-- What a block adds: its final cost if it is the tenant's and has ended that day. -/
def SpendCall.attributed (t d : Str) : SpendCall → ℚ
  | .left _ _ span day =>
    if span.tenantId = some t ∧ day = d then span.estimatedCostUsd.getD 0 else 0
  | _ => 0

theorem CostTables.getDailySpend_recordSpend (st : CostTables) (tenantId day : Str) (cost : ℚ)
    (t d : Str) : (st.recordSpend tenantId day cost).store.getDailySpend t d =
      st.store.getDailySpend t d + if (t, d) = (tenantId, day) then cost else 0 :=
  st.store.getDailySpend_recordSpend tenantId day cost t d

/-- **The step lemma**: a total grows by what the block or call has added, if anything. -/
theorem SpendStep.total (h : SpendStep st c st' c') (t d : Str) :
    st'.store.getDailySpend t d + (c.direct t d + c.attributed t d) =
      st.store.getDailySpend t d + (c'.direct t d + c'.attributed t d) := by
  cases h with
  | enter | edit | finish | hostCost | ownPrice | noOwnPrice | globalPrice | reprice
  | writePricing => rfl
  | @record e pricing span t' cost htenant hcost day =>
    rw [CostTables.getDailySpend_recordSpend]
    simp only [SpendCall.direct, SpendCall.attributed, htenant, hcost, Prod.mk.injEq,
      Option.some.injEq, Option.getD_some, eq_comm (a := t), eq_comm (a := d)]
    ring
  | @nothing e pricing span h day =>
    have hzero : SpendCall.attributed t d (.left e pricing span day) = 0 := by
      rw [SpendCall.attributed]
      rcases h with hcost | htenant
      · rw [hcost, Option.getD_none, ite_self]
      · rw [htenant, if_neg]
        rintro ⟨hnone, -⟩
        cases hnone
    rw [hzero]
    rfl
  | spend t' day amount =>
    rw [CostTables.getDailySpend_recordSpend]
    simp only [SpendCall.direct, SpendCall.attributed]
    ring

/-! ## What a call has cost -/

/-- The cost is the one the host has set, or else what was found of prices, applied to the
tokens. -/
def Ending.final (e : Ending) (pricing : Option PricingConfig) : LLMSpan ℚ :=
  { e.host with
    estimatedCostUsd :=
      e.host.estimatedCostUsd.or (pricing.map fun row ↦ row.spanCost e.host) }

/-- What is known of a block on its way out: its final span, and how far `get_pricing_config` has
come, if the prices are `prices`. -/
def SpendCall.Priced (prices : List PricingConfig) : SpendCall → Prop
  | .searching e => ∀ t, e.host.tenantId = some t → e.host.pricingRow prices (some t) = none
  | .costed e pricing _ | .left e pricing _ _ =>
    e.host.estimatedCostUsd = none → pricing = e.host.pricing prices
  | _ => True

/-- The span of a block is the final one as soon as its cost is settled. -/
def SpendCall.Settled : SpendCall → Prop
  | .searching e => e.host.estimatedCostUsd = none
  | .costed e pricing span | .left e pricing span _ => span = e.final pricing
  | _ => True

theorem SpendStep.settled (h : SpendStep st c st' c') (hc : c.Settled) : c'.Settled := by
  cases h with
  | enter | edit | finish | spend | reprice | writePricing => trivial
  | @hostCost e h =>
    show e.host = e.final none
    rw [Ending.final, Option.map_none, Option.or_none]
  | @ownPrice e t row h =>
    show _ = e.final (some row)
    rw [Ending.final, h]
    rfl
  | noOwnPrice h => exact h
  | @globalPrice e =>
    have hcost : e.host.estimatedCostUsd = none := hc
    show _ = e.final _
    rw [Ending.final, hcost]
    rfl
  | record => exact hc
  | nothing => exact hc

/-- While nobody sets prices, what is found is what `get_pricing_config` returns. -/
theorem SpendStep.priced {prices : List PricingConfig} (h : SpendStep st c st' c')
    (hprices : st.prices = prices) (hc : c.Priced prices) : c'.Priced prices := by
  subst hprices
  cases h with
  | enter | edit | finish | spend | reprice | writePricing => trivial
  | hostCost h => exact fun hnone ↦ absurd hnone h
  | @ownPrice e t row h htenant hrow =>
    intro _
    rw [LLMSpan.pricing, getPricingConfig, htenant, Option.bind_some]
    rw [LLMSpan.pricingRow] at hrow
    rw [hrow]
    rfl
  | noOwnPrice h hrow => exact hrow
  | @globalPrice e =>
    intro _
    have hown : (e.host.tenantId.bind fun t ↦ e.host.pricingRow st.prices (some t)) = none :=
      Option.bind_eq_none_iff.mpr hc
    rw [LLMSpan.pricing, getPricingConfig]
    rw [LLMSpan.pricingRow, ← Option.none_or (o := WiseTraceLoom.pricingRow _ _ _ _)]
    exact congrArg (Option.or · _) hown.symm
  | record => exact hc
  | nothing => exact hc

theorem SpendStep.prices_eq (h : SpendStep st c st' c') (hc : ∀ row, c' ≠ .repriced row) :
    st'.prices = st.prices := by
  cases h with
  | writePricing => exact absurd rfl (hc _)
  | _ => rfl

/-- Setting a price is the last step of its call. -/
theorem SpendStep.not_repriced (h : SpendStep st c st' c') (row : PricingConfig) :
    c ≠ .repriced row := by
  rintro rfl
  cases h

/-! ## Runs -/

variable {ι : Type} [DecidableEq ι] {x : Config ι CostTables SpendCall}
  {prices : List PricingConfig} {quotas : List QuotaConfig}

/-- Nothing has been spent, and no block has been entered. -/
def spendStart (quotas : List QuotaConfig) (prices : List PricingConfig) :
    Config ι CostTables SpendCall := ⟨⟨⟨quotas, []⟩, prices⟩, fun _ ↦ .idle⟩

theorem settled_of_steps (h : Steps SpendStep (spendStart quotas prices) x) (i : ι) :
    (x.locals i).Settled :=
  h.invariant (I := fun x ↦ ∀ i, (x.locals i).Settled)
    (fun _ i _ _ hall hstep ↦
      Config.forall_locals (hstep.settled (hall i)) fun j _ ↦ hall j)
    (fun _ ↦ trivial) i

/-- Unless somebody has set a price, the prices are those of the start. -/
theorem priced_of_steps (h : Steps SpendStep (spendStart quotas prices) x) :
    (∃ j row, x.locals j = .repriced row) ∨
      x.shared.prices = prices ∧ ∀ i, (x.locals i).Priced prices := by
  refine h.invariant (I := fun x ↦ (∃ j row, x.locals j = .repriced row) ∨
      x.shared.prices = prices ∧ ∀ i, (x.locals i).Priced prices) ?_ (Or.inr ⟨rfl, fun _ ↦ trivial⟩)
  rintro x i s' t' hx hstep
  by_cases hwrite : ∃ row, t' = .repriced row
  · obtain ⟨row, rfl⟩ := hwrite
    exact Or.inl ⟨i, row, Config.set_locals_self x i s' _⟩
  rcases hx with ⟨j, row, hj⟩ | ⟨hprices, hall⟩
  · have hji : j ≠ i := by
      rintro rfl
      exact hstep.not_repriced row hj
    exact Or.inl ⟨j, row, (Config.set_locals_ne x s' t' hji).trans hj⟩
  · have hsame : s'.prices = prices :=
      (hstep.prices_eq fun row hrow ↦ hwrite ⟨row, hrow⟩).trans hprices
    exact Or.inr ⟨hsame,
      Config.forall_locals (hstep.priced hprices (hall i)) fun j _ ↦ hall j⟩

/-- **Cost attribution is exactly once**: a total is what was recorded directly, and the final cost
of every block of the tenant that has ended on the day; and the final cost is the host's, else the
price that was found, applied to the tokens, where the price is the one of `get_pricing_config`. -/
theorem daily_spend_attribution (h : Steps SpendStep (spendStart quotas prices) x) :
    (∀ t d, x.shared.store.getDailySpend t d =
      tally (SpendCall.direct t d) x.locals + tally (SpendCall.attributed t d) x.locals) ∧
    ∀ i e pricing span day, x.locals i = .left e pricing span day →
      span = { e.host with
        estimatedCostUsd :=
          e.host.estimatedCostUsd.or (pricing.map fun row ↦ row.spanCost e.host) } ∧
      (e.host.estimatedCostUsd = none → (∀ j row, x.locals j ≠ .repriced row) →
        pricing = e.host.pricing prices) := by
  refine ⟨fun t d ↦ ?_, fun i e pricing span day hi ↦ ⟨?_, fun hnone hquiet ↦ ?_⟩⟩
  · have hempty : (spendStart quotas prices : Config ι _ _).shared.store.getDailySpend t d = 0 :=
      rfl
    rw [h.tally (fun hstep ↦ hstep.total t d) fun _ ↦ add_zero 0, hempty, zero_add]
    exact tally_add (h.few fun _ ↦ rfl) (h.few fun _ ↦ rfl)
  · have hsettled := settled_of_steps h i
    rwa [hi] at hsettled
  · rcases priced_of_steps h with ⟨j, row, hj⟩ | ⟨-, hall⟩
    · exact absurd hj (hquiet j row)
    · have hpriced := hall i
      rw [hi] at hpriced
      exact hpriced hnone

/-- A price for everyone. -/
def examplePrice : PricingConfig := ⟨none, "anthropic".toList, "claude".toList, 3, 15, 0, 0⟩

/-- A new span of `acme`. -/
def exampleSpan : LLMSpan ℚ where
  schemaVersion := schemaVersion
  spanId := "s".toList
  traceId := "t".toList
  parentSpanId := none
  tenantId := some "acme".toList
  startedAt := utcnow noon
  endedAt := none
  providerName := "anthropic".toList
  requestModel := "claude".toList
  responseModel := none
  operationName := "chat".toList
  inputTokens := none
  outputTokens := none
  reasoningTokens := none
  cacheReadInputTokens := none
  cacheCreationInputTokens := none
  finishReasons := []
  temperature := none
  maxTokens := none
  estimatedCostUsd := none
  promptVersionId := none

/-- A block that ends in an exception costs 18, and 2 are recorded directly. -/
theorem daily_spend_acme : ∃ x : Config Bool CostTables SpendCall,
    Steps SpendStep (spendStart [] [examplePrice]) x ∧
    x.shared.store.getDailySpend "acme".toList "2026-10-03".toList = 20 ∧
    x.shared.store.getDailySpend "acme".toList "2026-10-03".toList =
      tally (SpendCall.direct "acme".toList "2026-10-03".toList) x.locals +
        tally (SpendCall.attributed "acme".toList "2026-10-03".toList) x.locals := by
  let counted := { exampleSpan with inputTokens := some 1000, outputTokens := some 1000 }
  let day := "2026-10-03".toList
  have hblock : Solo SpendStep ((spendStart [] [examplePrice] : Config Bool _ _).shared, .idle)
      (_, .left ⟨true, counted⟩ (some examplePrice)
        { counted with estimatedCostUsd := some (examplePrice.spanCost counted) } day) :=
    (((((Solo.step .refl (.enter exampleSpan rfl)).step (.edit fun _ ↦ counted)).step
      (.finish true)).step (.noOwnPrice rfl (by decide))).step .globalPrice).step
        (.record rfl rfl day)
  have hended : Steps SpendStep (spendStart [] [examplePrice]) _ :=
    Solo.lift id false rfl rfl hblock
  have hrun := hended.thread true (.spend "acme".toList day 2)
  refine ⟨_, hrun, ?_, (daily_spend_attribution hrun).1 _ _⟩
  show (CostTables.recordSpend (CostTables.recordSpend _ _ day _) _ day
    2).store.getDailySpend _ _ = _
  rw [CostTables.getDailySpend_recordSpend, CostTables.getDailySpend_recordSpend]
  decide +kernel

/-! ## The function -/

/-- What a span adds to the totals. -/
def LLMSpan.spends (span : LLMSpan ℚ) : List (Str × ℚ) :=
  match span.estimatedCostUsd, span.tenantId with
  | some cost, some tenantId => [(tenantId, cost)]
  | _, _ => []

/-- The totals after some amounts were recorded on one day. -/
def CostTables.recordAll (st : CostTables) (day : Str) (spends : List (Str × ℚ)) : CostTables :=
  spends.foldl (fun st spend ↦ st.recordSpend spend.1 day spend.2) st

/-- The SDK works on these prices, and no query fails. -/
structure Sdk.Serves {ε : Type} (sdk : Sdk ε ℚ) (prices : List PricingConfig) : Prop where
  estimateCostUsd : ∀ span, sdk.estimateCostUsd span = .ok (span.estimate prices)
  recordSpend : ∀ t cost, sdk.recordSpend t cost = .ok ()
  checkSpendAnomaly : ∀ t, sdk.checkSpendAnomaly t = .ok ()

/-- `attributeCost` settles the cost of the span, and records it once. -/
theorem attributeCost_run {ε : Type} {sdk : Sdk ε ℚ} (hsdk : sdk.Serves prices) (e : Ending)
    (t : Telemetry ℚ) : (attributeCost sdk e.host).run t =
      (e.final (e.host.pricing prices),
        { t with spends := t.spends ++ (e.final (e.host.pricing prices)).spends }) := by
  have hspends : (e.final (e.host.pricing prices)).spends =
      match e.host.estimatedCostUsd.or (e.host.estimate prices), e.host.tenantId with
      | some cost, some tenantId => [(tenantId, cost)]
      | _, _ => [] := rfl
  have hfinal : e.final (e.host.pricing prices) = { e.host with
    estimatedCostUsd := e.host.estimatedCostUsd.or (e.host.estimate prices) } := rfl
  rw [hspends, hfinal, attributeCost, StateT.run_bind, failOpenContext, StateT.run_bind,
    SdkM.run_lift_bind, hsdk.estimateCostUsd e.host]
  generalize e.host.estimate prices = estimate
  cases e.host.estimatedCostUsd with
  | none =>
    cases estimate with
    | none =>
      simp only [Option.or_none, List.append_nil]
      rfl
    | some cost =>
      cases e.host.tenantId with
      | none =>
        simp only [Option.none_or, List.append_nil]
        rfl
      | some tenantId =>
        simp only [SdkM.run_lift_bind, hsdk.recordSpend, SdkM.run_modify_bind,
          hsdk.checkSpendAnomaly]
        rfl
  | some cost =>
    cases e.host.tenantId with
    | none =>
      simp only [Option.some_or, List.append_nil]
      rfl
    | some tenantId =>
      simp only [SdkM.run_lift_bind, hsdk.recordSpend, SdkM.run_modify_bind,
        hsdk.checkSpendAnomaly]
      rfl

/-- The cost of a block is settled on the way out. -/
theorem Ending.settles (st : CostTables) (e : Ending) : ∃ pricing,
    e.final pricing = e.final (e.host.pricing st.prices) ∧
      Solo SpendStep (st, .ended e) (st, .costed e pricing (e.final pricing)) := by
  by_cases hcost : e.host.estimatedCostUsd = none
  · refine ⟨e.host.pricing st.prices, rfl, ?_⟩
    have hfinal (pricing : Option PricingConfig) : e.final pricing = { e.host with
        estimatedCostUsd := pricing.map fun row ↦ row.spanCost e.host } := by
      rw [Ending.final, hcost, Option.none_or]
    rw [hfinal]
    cases hown : e.host.tenantId.bind fun t ↦ e.host.pricingRow st.prices (some t) with
    | some row =>
      obtain ⟨t, htenant, hrow⟩ := Option.bind_eq_some_iff.mp hown
      have hpricing : e.host.pricing st.prices = some row :=
        congrArg (Option.or · (e.host.pricingRow st.prices none)) hown
      rw [hpricing]
      exact Solo.step .refl (.ownPrice hcost htenant hrow)
    | none =>
      have hpricing : e.host.pricing st.prices = e.host.pricingRow st.prices none :=
        congrArg (Option.or · (e.host.pricingRow st.prices none)) hown
      rw [hpricing]
      exact (Solo.step .refl (.noOwnPrice hcost (Option.bind_eq_none_iff.mp hown))).step
        .globalPrice
  · obtain ⟨cost, hsome⟩ := Option.ne_none_iff_exists'.mp hcost
    have hhost (pricing : Option PricingConfig) : e.final pricing = e.host := by
      rw [Ending.final, hsome, Option.some_or, ← hsome]
    refine ⟨none, (hhost none).trans (hhost _).symm, ?_⟩
    rw [hhost none]
    exact Solo.step .refl (.hostCost hcost)

/-- **The two views agree**: what the function `attributeCost` does is a run of the steps of a
block, with the same final span and the same amounts. -/
theorem attributeCost_steps {ε : Type} {sdk : Sdk ε ℚ} (st : CostTables)
    (hsdk : sdk.Serves st.prices) (e : Ending) (t : Telemetry ℚ) (day : Str) :
    let r := (attributeCost sdk e.host).run t
    r.2.spends = t.spends ++ r.1.spends ∧
      ∃ pricing, Solo SpendStep (st, .ended e)
        (st.recordAll day r.1.spends, .left e pricing r.1 day) := by
  intro r
  have hr : r = _ := attributeCost_run hsdk e t
  rw [hr]
  obtain ⟨pricing, hfinal, hsolo⟩ := e.settles st
  refine ⟨rfl, pricing, ?_⟩
  rw [← hfinal]
  cases hcost : (e.final pricing).estimatedCostUsd with
  | none =>
    have hspends : (e.final pricing).spends = [] := by rw [LLMSpan.spends, hcost]
    rw [hspends]
    exact hsolo.step (.nothing (Or.inl hcost) day)
  | some cost =>
    cases htenant : (e.final pricing).tenantId with
    | none =>
      have hspends : (e.final pricing).spends = [] := by rw [LLMSpan.spends, hcost, htenant]
      rw [hspends]
      exact hsolo.step (.nothing (Or.inr htenant) day)
    | some tenantId =>
      have hspends : (e.final pricing).spends = [(tenantId, cost)] := by
        rw [LLMSpan.spends, hcost, htenant]
      rw [hspends]
      exact hsolo.step (.record htenant hcost day)

end WiseTraceLoom
