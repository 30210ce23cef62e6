import Aegis.Budget.Pricing
import Mathlib.Data.Rat.Floor
import Mathlib.Tactic.Positivity

/-!
# Budget.Settlement

What a reservation is for: the cost of every bill that is trusted is within it, and the cost of a
category is exact.
-/

namespace Aegis

open List

variable {a tokens rate total cost : Int} {amounts : List Int} {rates : Rates} {caps : Caps}
  {usage : Usage} {unknown : List String} {reserved : Int}

theorem ceilNanos_eq_ceil (a : Int) : ceilNanos a = ⌈(a : ℚ) / 1000000⌉ := by
  have hlow := le_ceilNanos a
  have hhigh := ceilNanos_lt a
  refine (Int.ceil_eq_iff.mpr ⟨?_, ?_⟩).symm
  · have h : ((1000000 * ceilNanos a : Int) : ℚ) < ((a + 1000000 : Int) : ℚ) := by
      exact_mod_cast hhigh
    push_cast at h
    rw [lt_div_iff₀ (by norm_num)]
    linarith
  · have h : ((a : Int) : ℚ) ≤ ((1000000 * ceilNanos a : Int) : ℚ) := by exact_mod_cast hlow
    push_cast at h
    rw [div_le_iff₀ (by norm_num)]
    linarith

/-- A category costs its product, rounded up, unless that is over the bound of 64 bits. -/
theorem categoryCost_ok (ht : 0 ≤ tokens) (hr : 0 ≤ rate) : categoryCost tokens rate =
      if tokens * rate ≤ maxUSDNanos then .ok (ceilNanos (tokens * rate))
      else .error .overflow := by
  unfold categoryCost
  rw [if_neg (not_lt.mpr ht), if_neg (not_lt.mpr hr)]
  by_cases hzero : tokens = 0 ∨ rate = 0
  · have hproduct : tokens * rate = 0 := mul_eq_zero.mpr hzero
    rw [if_pos hzero, hproduct]
    rfl
  · have hpos : 0 < rate := by
      rw [not_or] at hzero
      omega
    rw [if_neg hzero]
    by_cases hfits : tokens * rate ≤ maxUSDNanos
    · rw [if_pos hfits, if_neg (not_lt.mpr ((Int.le_ediv_iff_mul_le hpos).mpr hfits))]
    · have hover : maxUSDNanos / rate < tokens := by
        by_contra hnot
        exact hfits ((Int.le_ediv_iff_mul_le hpos).mp (not_lt.mp hnot))
      rw [if_neg hfits, if_pos hover]

theorem categoryCost_of_le (ht : 0 ≤ tokens) (hr : 0 ≤ rate) (hle : tokens * rate ≤ maxUSDNanos) :
    categoryCost tokens rate = .ok (ceilNanos (tokens * rate)) := by
  rw [categoryCost_ok ht hr, if_pos hle]

theorem ceilNanos_nonneg (ha : 0 ≤ a) : 0 ≤ ceilNanos a := by
  have h := le_ceilNanos a
  unfold tokensPerRateUnit at h
  omega

theorem addFrom_ok (hpos : ∀ amount ∈ amounts, 0 ≤ amount) (ht : 0 ≤ total)
    (hle : total + amounts.sum ≤ maxUSDNanos) :
    addFrom total amounts = .ok (total + amounts.sum) := by
  induction amounts generalizing total with
  | nil => simp [addFrom]
  | cons amount amounts ih =>
    obtain ⟨hamount, hrest⟩ := forall_mem_cons.mp hpos
    have hsum : 0 ≤ amounts.sum := sum_nonneg hrest
    rw [sum_cons] at hle ⊢
    unfold addFrom
    rw [if_neg (not_lt.mpr hamount), if_neg (by omega), ih hrest (by omega) (by omega), add_assoc]

theorem addNanos_ok (hpos : ∀ amount ∈ amounts, 0 ≤ amount) (hle : amounts.sum ≤ maxUSDNanos) :
    addNanos amounts = .ok amounts.sum := by
  have hsum := addFrom_ok hpos le_rfl (by omega : 0 + amounts.sum ≤ maxUSDNanos)
  rwa [zero_add] at hsum

def Usage.products (rates : Rates) (usage : Usage) : List Int :=
  if usage.cachedInputReported then
    [usage.uncachedInputTokens * rates.inputUSDPerMillion,
      usage.cachedInputTokens * rates.cachedInputUSDPerMillion,
      usage.outputTokens * rates.outputUSDPerMillion]
  else [usage.inputTokens * rates.inputRate, usage.outputTokens * rates.outputUSDPerMillion]

def Usage.exactCost (rates : Rates) (usage : Usage) : Int :=
  usage.uncachedInputTokens * rates.inputUSDPerMillion +
    usage.cachedInputTokens * rates.cachedInputUSDPerMillion +
    usage.outputTokens * rates.outputUSDPerMillion

structure Rates.Nonneg (rates : Rates) : Prop where
  input : 0 ≤ rates.inputUSDPerMillion
  cached : 0 ≤ rates.cachedInputUSDPerMillion
  output : 0 ≤ rates.outputUSDPerMillion

theorem Rates.Nonneg.inputRate (h : rates.Nonneg) : 0 ≤ rates.inputRate :=
  h.input.trans (input_le_inputRate rates).1

theorem products_fit (h : rates.Nonneg) (hr : reservation rates caps = .ok reserved) :
    caps.maxInputTokens * rates.inputRate ≤ maxUSDNanos ∧
      caps.maxOutputTokens * rates.outputUSDPerMillion ≤ maxUSDNanos := by
  unfold reservation at hr
  split at hr
  · cases hr
  · rename_i hcaps
    obtain ⟨input, hinput, hr⟩ := bind_eq_ok.mp hr
    obtain ⟨output, houtput, -⟩ := bind_eq_ok.mp hr
    rw [categoryCost_ok (by omega) h.inputRate] at hinput
    rw [categoryCost_ok (by omega) h.output] at houtput
    constructor
    · by_contra hnot
      rw [if_neg hnot] at hinput
      cases hinput
    · by_contra hnot
      rw [if_neg hnot] at houtput
      cases houtput

theorem input_le (h : rates.Nonneg) (hu : validateUsage usage caps unknown = .ok ()) :
    usage.uncachedInputTokens * rates.inputUSDPerMillion +
        usage.cachedInputTokens * rates.cachedInputUSDPerMillion ≤
      usage.inputTokens * rates.inputRate ∧
    usage.inputTokens * rates.inputRate ≤ caps.maxInputTokens * rates.inputRate := by
  obtain ⟨huncached, hcached, -, hinput, -⟩ := validateUsage_eq hu
  obtain ⟨hrate, hcachedRate⟩ := input_le_inputRate rates
  constructor
  · rw [Usage.inputTokens, add_mul]
    exact add_le_add (mul_le_mul_of_nonneg_left hrate huncached)
      (mul_le_mul_of_nonneg_left hcachedRate hcached)
  · exact mul_le_mul_of_nonneg_right hinput h.inputRate

/-- A bill that is trusted settles for no more than was reserved. -/
theorem settledCost_ok (h : rates.Nonneg) (hr : reservation rates caps = .ok reserved)
    (hu : validateUsage usage caps unknown = .ok ()) :
    settledCost rates usage = .ok ((usage.products rates).map ceilNanos).sum ∧
      ((usage.products rates).map ceilNanos).sum ≤ reserved := by
  obtain ⟨-, -, rfl, hmax⟩ := reservation_eq hr
  obtain ⟨huncached, hcached, houtput, -, hbound⟩ := validateUsage_eq hu
  obtain ⟨hsplit, hinput⟩ := input_le h hu
  have hout : usage.outputTokens * rates.outputUSDPerMillion ≤
      caps.maxOutputTokens * rates.outputUSDPerMillion :=
    mul_le_mul_of_nonneg_right hbound h.output
  have hlow₁ := mul_nonneg huncached h.input
  have hlow₂ := mul_nonneg hcached h.cached
  have hlow₃ := mul_nonneg houtput h.output
  obtain ⟨hfits₁, hfits₂⟩ := products_fit h hr
  have hceil₁ := ceilNanos_nonneg hlow₁
  have hceil₂ := ceilNanos_nonneg hlow₂
  have hceil₃ := ceilNanos_nonneg hlow₃
  have hmonoOut := ceilNanos_mono hout
  unfold settledCost Usage.products
  rw [if_neg (by omega)]
  split
  · -- the two input categories round up independently, which costs one nano at most
    have hadd := ceilNanos_add (usage.uncachedInputTokens * rates.inputUSDPerMillion)
      (usage.cachedInputTokens * rates.cachedInputUSDPerMillion)
    have hmono := ceilNanos_mono (hsplit.trans hinput)
    rw [categoryCost_of_le huncached h.input (by omega),
      categoryCost_of_le hcached h.cached (by omega),
      categoryCost_of_le houtput h.output (by omega)]
    refine ⟨?_, by simp; omega⟩
    exact addNanos_ok (by simp [hceil₁, hceil₂, hceil₃]) (by simp; omega)
  · have hmono := ceilNanos_mono hinput
    have hlow : 0 ≤ usage.inputTokens * rates.inputRate :=
      mul_nonneg (inputTokens_within hu).1 h.inputRate
    have hceil := ceilNanos_nonneg hlow
    rw [categoryCost_of_le (inputTokens_within hu).1 h.inputRate (by omega),
      categoryCost_of_le houtput h.output (by omega)]
    refine ⟨?_, by simp; omega⟩
    exact addNanos_ok (by simp [hceil, hceil₃]) (by simp; omega)

/-- What is settled is no less than the exact cost. -/
theorem exactCost_le (h : rates.Nonneg) (hu : validateUsage usage caps unknown = .ok ()) :
    usage.exactCost rates ≤ tokensPerRateUnit * ((usage.products rates).map ceilNanos).sum := by
  obtain ⟨hsplit, -⟩ := input_le h hu
  have h₁ := le_ceilNanos (usage.uncachedInputTokens * rates.inputUSDPerMillion)
  have h₂ := le_ceilNanos (usage.cachedInputTokens * rates.cachedInputUSDPerMillion)
  have h₃ := le_ceilNanos (usage.outputTokens * rates.outputUSDPerMillion)
  have h₄ := le_ceilNanos (usage.inputTokens * rates.inputRate)
  unfold Usage.exactCost Usage.products
  unfold tokensPerRateUnit at h₁ h₂ h₃ h₄ ⊢
  split
  all_goals
    simp only [map_cons, map_nil, sum_cons, sum_nil]
    omega

/-- **Reservations.** A bill that is trusted settles without overflow, for no more than was
reserved and no less than its exact cost; and a category costs exactly its product over a million,
rounded up, unless the product is no 64-bit integer. -/
theorem reservation_covers (rates : Rates) (caps : Caps) (usage : Usage) (reserved : Int) :
    (rates.Nonneg → reservation rates caps = .ok reserved → validateUsage usage caps [] = .ok () →
      ∃ cost, settledCost rates usage = .ok cost ∧ cost ≤ reserved ∧ cost ≤ maxUSDNanos ∧
        (usage.exactCost rates : ℚ) / 1000000 ≤ cost) ∧
    ∀ tokens rate, 0 ≤ tokens → 0 ≤ rate → (tokens * rate ≤ maxUSDNanos →
        categoryCost tokens rate = .ok ⌈((tokens * rate : Int) : ℚ) / 1000000⌉) ∧
      (maxUSDNanos < tokens * rate → categoryCost tokens rate = .error .overflow) := by
  refine ⟨fun h hr hu => ?_, fun tokens rate ht hrate => ⟨fun hle => ?_, fun hlt => ?_⟩⟩
  · obtain ⟨hcost, hle⟩ := settledCost_ok h hr hu
    obtain ⟨-, -, -, hmax⟩ := reservation_eq hr
    refine ⟨_, hcost, hle, hle.trans hmax, ?_⟩
    have hexact : (usage.exactCost rates : ℚ) ≤
        ((1000000 * ((usage.products rates).map ceilNanos).sum : Int) : ℚ) := by
      exact_mod_cast exactCost_le h hu
    rw [div_le_iff₀ (by norm_num), mul_comm]
    rw [Int.cast_mul] at hexact
    exact_mod_cast hexact
  · rw [categoryCost_of_le ht hrate hle, ceilNanos_eq_ceil]
  · rw [categoryCost_ok ht hrate, if_neg (not_le.mpr hlt)]

/-- Three categories that each round up take all that was reserved. -/
theorem reservation_covers_split : ∃ cost, settledCost ⟨1, 1, 1⟩ ⟨3, 3, 2, true⟩ = .ok cost ∧
    cost ≤ 3 ∧ cost ≤ maxUSDNanos ∧ ((⟨3, 3, 2, true⟩ : Usage).exactCost ⟨1, 1, 1⟩ : ℚ) / 1000000 ≤ cost :=
  (reservation_covers ⟨1, 1, 1⟩ ⟨6, 2⟩ ⟨3, 3, 2, true⟩ 3).1 ⟨by decide, by decide, by decide⟩ rfl
    rfl

end Aegis
