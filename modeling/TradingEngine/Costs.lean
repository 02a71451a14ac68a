import TradingEngine.Ledger
import TradingEngine.Nyse

/-!
# Fees and financing charges

The dated fee table of the broker profile for stocks, and the compatibility
profile that charges nothing. Components are unrounded; only their sum is
rounded, half up, to cents. Option rates are left out: the account engine
executes stocks and funds only.
-/

namespace TradingEngine.Costs

open Ledger OrderTypes Nyse

inductive CostProfile where
  | baselineV1 | ibkrProTieredV1
  deriving DecidableEq

/-- How a fill was made. -/
inductive FillKind where
  | nextOpen | openAuction | closeAuction | intradayBar | limitTouch
  deriving DecidableEq

/-- Exchange fee per share of each kind of fill. -/
def exchangePerShare : FillKind → ℚ
  | .nextOpen | .openAuction => 15 / 10000
  | .closeAuction => 16 / 10000
  | .intradayBar => 30 / 10000
  | .limitTouch => 0

/-- Share of a sale's value owed to the regulator, from its effective date on. -/
def secFraction (day : Int) : ℚ := if ordinal 2026 4 4 ≤ day then 206 / 10000000 else 0

/-- Trading activity fee per share sold, paused for one quarter. -/
def tafPerShare (day : Int) : ℚ :=
  if ordinal 2026 10 1 ≤ day ∧ day ≤ ordinal 2026 12 31 then 0 else 195 / 1000000

/-- Annual benchmark of the margin rate. -/
def marginBenchmark (day : Int) : ℚ :=
  if ordinal 2026 10 2 ≤ day then 388 / 10000 else 433 / 10000

/-- Half-up rounding to cents. -/
def roundUsd (value : ℚ) : ℚ := ⌊value * 100 + 1 / 2⌋ / 100

/-- Commission of a stock order: per share with a minimum, capped by value; a
fractional quantity pays at least a cent. -/
def stockCommission (shares value : ℚ) : ℚ :=
  let commission := min (max (35 / 100) (35 / 10000 * shares)) (1 / 100 * value)
  if shares.den = 1 then commission else max (1 / 100) commission

/-- Fees of one stock fill. -/
def stockCharge (side : Side) (qty price : ℚ) (kind : FillKind) (day : Int) : Fees :=
  let shares := |qty|
  let value := shares * price
  let commission := stockCommission shares value
  let exchange := exchangePerShare kind * shares
  let clearing := 2 / 10000 * shares
  let passThrough := commission * (175 / 1000000 + 565 / 1000000)
  let cat := 3 / 1000000 * shares
  let sale := decide (side = .sell) || decide (side = .short)
  let sec := if sale then value * secFraction day else 0
  let taf := if sale then min (shares * tafPerShare day) (979 / 100) else 0
  { commission := commission, exchangeFee := exchange, clearingFee := clearing
    passThrough := passThrough, catFee := cat, secFee := sec, finraTaf := taf, occFee := 0
    orfFee := 0
    totalUsd := roundUsd (commission + exchange + clearing + passThrough + cat + sec + taf) }

/-- Charge one fill under a profile. The broker profile refuses a quantity or a
value that is not positive. -/
def charge (profile : CostProfile) (side : Side) (qty price : ℚ) (kind : FillKind) (day : Int) :
    Option Fees :=
  match profile with
  | .baselineV1 => some (.ofTotal 0)
  | .ibkrProTieredV1 =>
    if 0 < |qty| ∧ 0 < |qty| * price then some (stockCharge side qty price kind day) else none

/-- Borrow debit for a span of calendar days. -/
def borrowFee (profile : CostProfile) (shortMarketValue : ℚ) (days : Int) : ℚ :=
  match profile with
  | .baselineV1 => 0
  | .ibkrProTieredV1 => shortMarketValue * (25 / 10000) * days / 360

/-- Margin interest for one calendar day of a debit. -/
def marginInterest (profile : CostProfile) (debit : ℚ) (day : Int) : ℚ :=
  match profile with
  | .baselineV1 => 0
  | .ibkrProTieredV1 => debit * (marginBenchmark day + 150 / 10000) / 360

theorem roundUsd_nonneg {value : ℚ} (nonneg : 0 ≤ value) : 0 ≤ roundUsd value := by
  have floored : (0 : ℤ) ≤ ⌊value * 100 + 1 / 2⌋ := Int.floor_nonneg.mpr (by linarith)
  exact div_nonneg (by exact_mod_cast floored) (by norm_num)

theorem stockCommission_nonneg (shares : ℚ) {value : ℚ} (nonneg : 0 ≤ value) :
    0 ≤ stockCommission shares value := by
  have capped : 0 ≤ min (max (35 / 100) (35 / 10000 * shares)) (1 / 100 * value) :=
    le_min (le_max_of_le_left (by norm_num)) (by linarith)
  unfold stockCommission
  split
  · exact capped
  · exact le_max_of_le_right capped

/-- No component of a charge is negative, so the ledger accepts every charge. -/
theorem charge_nonneg {profile : CostProfile} {side : Side} {qty price : ℚ} {kind : FillKind}
    {day : Int} {fees : Fees} (charged : charge profile side qty price kind day = some fees) :
    ∀ component ∈ fees.components, 0 ≤ component := by
  cases profile with
  | baselineV1 =>
    cases charged
    simp [Fees.components, Fees.ofTotal]
  | ibkrProTieredV1 =>
    simp only [charge] at charged
    split at charged
    · rename_i valid
      cases charged
      have value := valid.2.le
      have shares := valid.1.le
      have commission := stockCommission_nonneg |qty| value
      have exchange : 0 ≤ exchangePerShare kind * |qty| :=
        mul_nonneg (by cases kind <;> norm_num [exchangePerShare]) shares
      have sec : 0 ≤ secFraction day := by
        unfold secFraction
        split <;> norm_num
      have taf : 0 ≤ tafPerShare day := by
        unfold tafPerShare
        split <;> norm_num
      have clearing : 0 ≤ 2 / 10000 * |qty| := by linarith
      have passThrough : 0 ≤ stockCommission |qty| (|qty| * price) *
          (175 / 1000000 + 565 / 1000000) := mul_nonneg commission (by norm_num)
      have cat : 0 ≤ 3 / 1000000 * |qty| := by linarith
      have secFee : 0 ≤ if (decide (side = .sell) || decide (side = .short)) = true then
          |qty| * price * secFraction day else 0 := by
        split
        · exact mul_nonneg value sec
        · exact le_refl 0
      have tafFee : 0 ≤ if (decide (side = .sell) || decide (side = .short)) = true then
          min (|qty| * tafPerShare day) (979 / 100) else 0 := by
        split
        · exact le_min (mul_nonneg shares taf) (by norm_num)
        · exact le_refl 0
      have sum : 0 ≤ roundUsd (stockCommission |qty| (|qty| * price) +
          exchangePerShare kind * |qty| + 2 / 10000 * |qty| +
          stockCommission |qty| (|qty| * price) * (175 / 1000000 + 565 / 1000000) +
          3 / 1000000 * |qty| +
          (if (decide (side = .sell) || decide (side = .short)) = true then
            |qty| * price * secFraction day else 0) +
          (if (decide (side = .sell) || decide (side = .short)) = true then
            min (|qty| * tafPerShare day) (979 / 100) else 0)) :=
        roundUsd_nonneg (by positivity)
      simp only [Fees.components, stockCharge, List.mem_cons, List.not_mem_nil, or_false]
      rintro component (rfl | rfl | rfl | rfl | rfl | rfl | rfl | rfl | rfl | rfl)
      · exact commission
      · exact exchange
      · exact clearing
      · exact passThrough
      · exact cat
      · exact secFee
      · exact tafFee
      · exact le_refl 0
      · exact le_refl 0
      · exact sum
    · cases charged

end TradingEngine.Costs
