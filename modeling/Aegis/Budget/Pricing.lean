import Aegis.Lib.Outcome
import Mathlib.Tactic.Ring
import Mathlib.Tactic.Linarith

/-!
# Budget.Pricing

The integer arithmetic of `llm/budget/pricing.go`: what a physical call may cost at most, and what
it has cost. Amounts (`USDNanos`) are nanos of a US dollar.

An amount is checked against the largest 64-bit integer before it is formed, so the values here are
those of the machine.
-/

namespace Aegis

def maxUSDNanos : Int := 9223372036854775807

structure Rates where
  inputUSDPerMillion : Int
  cachedInputUSDPerMillion : Int
  outputUSDPerMillion : Int

structure Caps where
  maxInputTokens : Int
  maxOutputTokens : Int

structure Usage where
  uncachedInputTokens : Int
  cachedInputTokens : Int
  outputTokens : Int
  cachedInputReported : Bool
deriving DecidableEq

/-- `InputTokens`. The sum wraps on the machine only for usage that `validateUsage` refuses
(`inputTokens_within`). -/
def Usage.inputTokens (u : Usage) : Int := u.uncachedInputTokens + u.cachedInputTokens

inductive PricingError where
  | negativeTokens | negativeRate | negativeAmount | overflow | nonpositiveCaps | negativeUsage
  | unknownCategories (names : List String)
  | cachedWithoutCategory
  | inputSplit (uncached cached bound : Int)
  | output (tokens bound : Int)

def PricingError.text : PricingError → String
  | negativeTokens => "token count must not be negative"
  | negativeRate => "usd nano rate must not be negative"
  | negativeAmount => "usd nano amount must not be negative"
  | overflow => "usd nano amount overflows"
  | nonpositiveCaps => "route token caps must be positive"
  | negativeUsage => "reported usage must not be negative"
  | unknownCategories names =>
    "provider reported unknown billing categories: [" ++ " ".intercalate names ++ "]"
  | cachedWithoutCategory => "cached input tokens reported without a cached category"
  | inputSplit uncached cached bound =>
    "reported input token split " ++ toString uncached ++ " + " ++ toString cached ++
      " exceeds prepared bound " ++ toString bound
  | output tokens bound =>
    "reported output tokens " ++ toString tokens ++ " exceed prepared bound " ++ toString bound

def tokensPerRateUnit : Int := 1000000

def reservationSplitRoundingHeadroom : Int := 1

def ceilNanos (product : Int) : Int :=
  product / tokensPerRateUnit + if product % tokensPerRateUnit = 0 then 0 else 1

def categoryCost (tokens : Int) (ratePerMillion : Int) : Except PricingError Int :=
  if tokens < 0 then .error .negativeTokens
  else if ratePerMillion < 0 then .error .negativeRate
  else if tokens = 0 ∨ ratePerMillion = 0 then .ok 0
  else if maxUSDNanos / ratePerMillion < tokens then .error .overflow
  else .ok (ceilNanos (tokens * ratePerMillion))

/-- The loop of `Add` from `total` on. -/
def addFrom (total : Int) : List Int → Except PricingError Int
  | [] => .ok total
  | amount :: amounts =>
    if amount < 0 then .error .negativeAmount
    else if maxUSDNanos - total < amount then .error .overflow
    else addFrom (total + amount) amounts

/-- `Add`. -/
def addNanos (amounts : List Int) : Except PricingError Int := addFrom 0 amounts

def Rates.inputRate (r : Rates) : Int :=
  if r.inputUSDPerMillion < r.cachedInputUSDPerMillion then r.cachedInputUSDPerMillion
  else r.inputUSDPerMillion

def reservation (rates : Rates) (caps : Caps) : Except PricingError Int :=
  if caps.maxInputTokens ≤ 0 ∨ caps.maxOutputTokens ≤ 0 then .error .nonpositiveCaps
  else do
    let input ← categoryCost caps.maxInputTokens rates.inputRate
    let output ← categoryCost caps.maxOutputTokens rates.outputUSDPerMillion
    addNanos [input, output, reservationSplitRoundingHeadroom]

def settledCost (rates : Rates) (usage : Usage) : Except PricingError Int :=
  if usage.uncachedInputTokens < 0 ∨ usage.cachedInputTokens < 0 ∨ usage.outputTokens < 0 then
    .error .negativeUsage
  else if usage.cachedInputReported then do
    let uncached ← categoryCost usage.uncachedInputTokens rates.inputUSDPerMillion
    let cached ← categoryCost usage.cachedInputTokens rates.cachedInputUSDPerMillion
    let output ← categoryCost usage.outputTokens rates.outputUSDPerMillion
    addNanos [uncached, cached, output]
  else do
    let input ← categoryCost usage.inputTokens rates.inputRate
    let output ← categoryCost usage.outputTokens rates.outputUSDPerMillion
    addNanos [input, output]

def validateUsage (usage : Usage) (caps : Caps) (unknownCategories : List String) :
    Except PricingError Unit :=
  if !unknownCategories.isEmpty then .error (.unknownCategories unknownCategories)
  else if usage.uncachedInputTokens < 0 ∨ usage.cachedInputTokens < 0 ∨ usage.outputTokens < 0 then
    .error .negativeUsage
  else if 0 < usage.cachedInputTokens ∧ usage.cachedInputReported = false then
    .error .cachedWithoutCategory
  else if caps.maxInputTokens < usage.uncachedInputTokens ∨
      caps.maxInputTokens - usage.uncachedInputTokens < usage.cachedInputTokens then
    .error (.inputSplit usage.uncachedInputTokens usage.cachedInputTokens caps.maxInputTokens)
  else if caps.maxOutputTokens < usage.outputTokens then
    .error (.output usage.outputTokens caps.maxOutputTokens)
  else .ok ()

section Rounding

variable {a b tokens rate cost total : Int}
  {amounts : List Int}

theorem le_ceilNanos (a : Int) : a ≤ tokensPerRateUnit * ceilNanos a := by
  unfold ceilNanos tokensPerRateUnit
  split <;> omega

theorem ceilNanos_lt (a : Int) : tokensPerRateUnit * ceilNanos a < a + tokensPerRateUnit := by
  unfold ceilNanos tokensPerRateUnit
  split <;> omega

theorem ceilNanos_mono (h : a ≤ b) : ceilNanos a ≤ ceilNanos b := by
  have ha := ceilNanos_lt a
  have hb := le_ceilNanos b
  unfold tokensPerRateUnit at ha hb
  omega

theorem ceilNanos_add (a b : Int) : ceilNanos a + ceilNanos b ≤ ceilNanos (a + b) + 1 := by
  have ha := ceilNanos_lt a
  have hb := ceilNanos_lt b
  have hab := le_ceilNanos (a + b)
  unfold tokensPerRateUnit at ha hb hab
  omega

theorem categoryCost_eq (h : categoryCost tokens rate = .ok cost) :
    0 ≤ tokens ∧ 0 ≤ rate ∧ cost = ceilNanos (tokens * rate) := by
  unfold categoryCost at h
  split at h
  · cases h
  · split at h
    · cases h
    · rename_i htokens hrate
      refine ⟨not_lt.mp htokens, not_lt.mp hrate, ?_⟩
      split at h
      · rename_i hzero
        have hproduct : tokens * rate = 0 := mul_eq_zero.mpr hzero
        rw [hproduct]
        exact (Except.ok.inj h).symm
      · split at h
        · cases h
        · exact (Except.ok.inj h).symm

theorem addFrom_eq (h : addFrom total amounts = .ok cost) : cost = total + amounts.sum := by
  induction amounts generalizing total with
  | nil => simpa using (Except.ok.inj h).symm
  | cons amount amounts ih =>
    unfold addFrom at h
    split at h
    · cases h
    · split at h
      · cases h
      · rw [ih h, List.sum_cons, add_assoc]

theorem addFrom_le (h : addFrom total amounts = .ok cost) (ht : total ≤ maxUSDNanos) :
    cost ≤ maxUSDNanos := by
  induction amounts generalizing total with
  | nil => exact Except.ok.inj h ▸ ht
  | cons amount amounts ih =>
    unfold addFrom at h
    split at h
    · cases h
    · split at h
      · cases h
      · rename_i hfits
        exact ih h (by omega)

end Rounding

section Settlement

variable {rates : Rates} {caps : Caps} {usage : Usage} {reserved cost : Int}
  {unknown : List String}

/-- A reservation that succeeds: both limits at their rates, rounded up, and one nano-dollar. -/
theorem reservation_eq (h : reservation rates caps = .ok reserved) :
    0 < caps.maxInputTokens ∧ 0 < caps.maxOutputTokens ∧
      reserved = ceilNanos (caps.maxInputTokens * rates.inputRate) +
        ceilNanos (caps.maxOutputTokens * rates.outputUSDPerMillion) + 1 ∧
      reserved ≤ maxUSDNanos := by
  unfold reservation at h
  split at h
  · cases h
  · rename_i hcaps
    obtain ⟨input, hinput, h⟩ := bind_eq_ok.mp h
    obtain ⟨output, houtput, h⟩ := bind_eq_ok.mp h
    obtain ⟨-, -, rfl⟩ := categoryCost_eq hinput
    obtain ⟨-, -, rfl⟩ := categoryCost_eq houtput
    have hsum := addFrom_eq h
    refine ⟨by omega, by omega, ?_, addFrom_le h (by decide)⟩
    simp only [List.sum_cons, List.sum_nil, reservationSplitRoundingHeadroom] at hsum
    omega

theorem validateUsage_eq (h : validateUsage usage caps unknown = .ok ()) :
    0 ≤ usage.uncachedInputTokens ∧ 0 ≤ usage.cachedInputTokens ∧ 0 ≤ usage.outputTokens ∧
      usage.uncachedInputTokens + usage.cachedInputTokens ≤ caps.maxInputTokens ∧
      usage.outputTokens ≤ caps.maxOutputTokens := by
  unfold validateUsage at h
  split at h
  · cases h
  · split at h
    · cases h
    · split at h
      · cases h
      · split at h
        · cases h
        · split at h
          · cases h
          · refine ⟨?_, ?_, ?_, ?_, ?_⟩ <;> omega

/-- The input of a bill that is trusted is a number of the machine, as the cap is. -/
theorem inputTokens_within (h : validateUsage usage caps unknown = .ok ()) :
    0 ≤ usage.inputTokens ∧ usage.inputTokens ≤ caps.maxInputTokens := by
  obtain ⟨huncached, hcached, -, hinput, -⟩ := validateUsage_eq h
  exact ⟨add_nonneg huncached hcached, hinput⟩

theorem input_le_inputRate (rates : Rates) : rates.inputUSDPerMillion ≤ rates.inputRate ∧
      rates.cachedInputUSDPerMillion ≤ rates.inputRate := by
  unfold Rates.inputRate
  split <;> constructor <;> omega

end Settlement

end Aegis
