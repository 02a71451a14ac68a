import TradingEngine.Costs

/-!
# Reinvestment in whole shares

Freed cash buys whole shares of the index fund. The fee of the most shares that the cash
covers at the price is set aside, and the rest is divided by the price once more. Both the
fee and what it leaves are monotone in the number of shares, so the second quotient is
affordable, and where that fee is at most the price nothing larger is.
-/

namespace TradingEngine.SpyReinvestment

open Costs Ledger OrderTypes

/-- The whole-share quantity bought with some cash, or nothing where the profile refuses. -/
def spyReinvestmentQuantity (cash fillPx : ℚ) (profile : CostProfile) (fillDate : ℤ) :
    Option ℤ := do
  let candidate := ⌊cash / fillPx⌋
  let fee ←
    if 0 < candidate then
      (charge profile .buy candidate fillPx .nextOpen fillDate).map Fees.totalUsd
    else some 0
  some ⌊max (cash - fee) 0 / fillPx⌋

/-- The fee of a whole-share purchase. Nothing is charged for no shares. -/
def reinvestmentFee (fillPx : ℚ) (fillDate : ℤ) (shares : ℤ) : ℚ :=
  if 0 < shares then (stockCharge .buy shares fillPx .nextOpen fillDate).totalUsd else 0

theorem roundUsd_mono {first second : ℚ} (le : first ≤ second) :
    roundUsd first ≤ roundUsd second := by
  have floored : ⌊first * 100 + 1 / 2⌋ ≤ ⌊second * 100 + 1 / 2⌋ := Int.floor_mono (by linarith)
  have cast : (⌊first * 100 + 1 / 2⌋ : ℚ) ≤ ⌊second * 100 + 1 / 2⌋ := by exact_mod_cast floored
  unfold roundUsd
  linarith

section Fees

variable {fillPx : ℚ} (fillDate : ℤ)

theorem stockCommission_whole (shares : ℤ) (value : ℚ) :
    stockCommission shares value =
      min (max (35 / 100) (35 / 10000 * (shares : ℚ))) (1 / 100 * value) := by
  simp [stockCommission]

theorem reinvestmentFee_nonneg (priced : 0 < fillPx) (shares : ℤ) :
    0 ≤ reinvestmentFee fillPx fillDate shares := by
  unfold reinvestmentFee
  split
  · rename_i positive
    have positive : (0 : ℚ) < shares := by exact_mod_cast positive
    have value : 0 < |(shares : ℚ)| * fillPx := by positivity
    have charged : charge .ibkrProTieredV1 .buy shares fillPx .nextOpen fillDate =
        some (stockCharge .buy shares fillPx .nextOpen fillDate) := by
      rw [charge, if_pos ⟨abs_pos.mpr positive.ne', value⟩]
    exact charge_nonneg charged _ (by simp [Fees.components])
  · exact le_refl 0

/-- More whole shares are never charged less. -/
theorem stockCharge_mono (priced : 0 < fillPx) {fewer more : ℤ} (nonneg : 0 ≤ fewer)
    (le : fewer ≤ more) :
    (stockCharge .buy fewer fillPx .nextOpen fillDate).totalUsd ≤
      (stockCharge .buy more fillPx .nextOpen fillDate).totalUsd := by
  have fewer₀ : (0 : ℚ) ≤ fewer := by exact_mod_cast nonneg
  have more₀ : (0 : ℚ) ≤ more := by exact_mod_cast nonneg.trans le
  have shares : (fewer : ℚ) ≤ more := by exact_mod_cast le
  have value : (fewer : ℚ) * fillPx ≤ more * fillPx := by gcongr
  have commission : stockCommission fewer (fewer * fillPx) ≤
      stockCommission more (more * fillPx) := by
    rw [stockCommission_whole, stockCommission_whole]
    gcongr
  simp only [stockCharge, abs_of_nonneg fewer₀, abs_of_nonneg more₀, exchangePerShare]
  refine roundUsd_mono ?_
  simp only [reduceCtorEq, decide_false, Bool.or_self, Bool.false_eq_true, if_false]
  linarith

theorem reinvestmentFee_mono (priced : 0 < fillPx) {fewer more : ℤ} (le : fewer ≤ more) :
    reinvestmentFee fillPx fillDate fewer ≤ reinvestmentFee fillPx fillDate more := by
  by_cases some : 0 < fewer
  · rw [reinvestmentFee, reinvestmentFee, if_pos some, if_pos (some.trans_le le)]
    exact stockCharge_mono fillDate priced some.le le
  · rw [reinvestmentFee, if_neg some]
    exact reinvestmentFee_nonneg fillDate priced more

end Fees

/-- What the quantity comes to, for a positive price: the fee of the candidate set aside. -/
theorem spyReinvestmentQuantity_eq {cash fillPx : ℚ} (priced : 0 < fillPx) (fillDate : ℤ) :
    spyReinvestmentQuantity cash fillPx .ibkrProTieredV1 fillDate =
      some ⌊max (cash - reinvestmentFee fillPx fillDate ⌊cash / fillPx⌋) 0 / fillPx⌋ := by
  unfold spyReinvestmentQuantity reinvestmentFee
  dsimp only
  by_cases some : 0 < ⌊cash / fillPx⌋
  · have positive : (0 : ℚ) < ⌊cash / fillPx⌋ := by exact_mod_cast some
    have value : 0 < |(⌊cash / fillPx⌋ : ℚ)| * fillPx := by positivity
    rw [if_pos some, if_pos some, charge, if_pos ⟨abs_pos.mpr positive.ne', value⟩]
    rfl
  · rw [if_neg some, if_neg some]
    rfl

/-- The whole shares bought and their fee are covered by the cash, and where the fee of the
most shares at the price is at most the price, no larger number of shares is. -/
theorem spyReinvestment_affordable {cash fillPx : ℚ} (solvent : 0 ≤ cash) (priced : 0 < fillPx)
    (fillDate : ℤ) :
    ∃ shares, spyReinvestmentQuantity cash fillPx .ibkrProTieredV1 fillDate = some shares ∧
      0 ≤ shares ∧ shares * fillPx + reinvestmentFee fillPx fillDate shares ≤ cash ∧
      (reinvestmentFee fillPx fillDate ⌊cash / fillPx⌋ ≤ fillPx →
        ∀ larger : ℤ, shares < larger →
          cash < larger * fillPx + reinvestmentFee fillPx fillDate larger) := by
  refine ⟨_, spyReinvestmentQuantity_eq priced fillDate, ?_, ?_, ?_⟩
  all_goals
    generalize most : ⌊cash / fillPx⌋ = candidate
    have set : 0 ≤ reinvestmentFee fillPx fillDate candidate :=
      reinvestmentFee_nonneg fillDate priced candidate
    generalize charged : reinvestmentFee fillPx fillDate candidate = fee at set
    have left : 0 ≤ max (cash - fee) 0 := le_max_right _ _
    generalize bought : ⌊max (cash - fee) 0 / fillPx⌋ = shares
  · rw [← bought]
    exact Int.floor_nonneg.mpr (by positivity)
  · have within : shares ≤ candidate := by
      rw [← bought, ← most]
      refine Int.floor_mono ?_
      have less : max (cash - fee) 0 ≤ cash := max_le (by linarith) solvent
      gcongr
    have spent : (shares : ℚ) * fillPx ≤ max (cash - fee) 0 := by
      rw [← le_div_iff₀ priced, ← bought]
      exact Int.floor_le _
    by_cases covered : fee ≤ cash
    · rw [max_eq_left (by linarith)] at spent
      have less := reinvestmentFee_mono fillDate priced within
      linarith
    · -- Cash that does not cover the fee buys nothing, and nothing is charged.
      rw [max_eq_right (by linarith)] at bought
      obtain rfl : shares = 0 := by simpa using bought.symm
      simpa [reinvestmentFee] using solvent
  · intro cheap larger more
    have next : (shares : ℚ) + 1 ≤ larger := by exact_mod_cast more
    have short : max (cash - fee) 0 < (shares + 1) * fillPx := by
      rw [← div_lt_iff₀ priced, ← bought]
      exact Int.lt_floor_add_one _
    have unspent : cash - fee < larger * fillPx := by
      have := le_max_left (cash - fee) 0
      nlinarith
    by_cases beyond : candidate < larger
    · have reached : (candidate : ℚ) + 1 ≤ larger := by exact_mod_cast beyond
      have exceeds : cash < (candidate + 1) * fillPx := by
        rw [← div_lt_iff₀ priced, ← most]
        exact Int.lt_floor_add_one _
      have := reinvestmentFee_nonneg fillDate priced larger
      nlinarith
    · -- A number between the two could only be the candidate itself.
      have floored : (candidate : ℚ) * fillPx ≤ cash := by
        rw [← le_div_iff₀ priced, ← most]
        exact Int.floor_le _
      have near : (candidate : ℚ) < shares + 2 := by
        by_contra far
        have : (shares : ℚ) + 2 ≤ candidate := not_lt.mp far
        have := le_max_left (cash - fee) 0
        nlinarith
      have near : candidate < shares + 2 := by exact_mod_cast near
      obtain rfl : larger = candidate := by omega
      rw [charged]
      linarith

/-- A hundred dollars at a cent short of twenty. -/
theorem hundred_affordable :
    ∃ shares, spyReinvestmentQuantity 100 (1999 / 100) .ibkrProTieredV1 739769 = some shares ∧
      0 ≤ shares ∧ shares * (1999 / 100) + reinvestmentFee (1999 / 100) 739769 shares ≤ 100 ∧
      (reinvestmentFee (1999 / 100) 739769 ⌊(100 : ℚ) / (1999 / 100)⌋ ≤ 1999 / 100 →
        ∀ larger : ℤ, shares < larger →
          100 < larger * (1999 / 100) + reinvestmentFee (1999 / 100) 739769 larger) :=
  spyReinvestment_affordable (by norm_num) (by norm_num) 739769

end TradingEngine.SpyReinvestment
