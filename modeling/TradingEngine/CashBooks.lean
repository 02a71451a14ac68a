import TradingEngine.Costs
import TradingEngine.LotCarry
import TradingEngine.Runs

/-!
# Cash of books that cannot borrow

A `cash_legacy` book buys and sells and is charged by the broker profile. A buy
is clamped to what is left of the cash after its fee, so it never spends more. A
sale debits its fee without a guard: the fee has minimums, amounts per share and
is rounded to cents, and it may exceed what the sale brings. Cash stays
non-negative in every run in which each sale that reaches a holding brings, with
the cash at hand, at least its fee.
-/

namespace TradingEngine.Costs

open Ledger OrderTypes Nyse Runs

/-- A buy or a sell of a stock and what else its charge depends on. -/
structure CashFill where
  fill : Fill
  kind : FillKind
  day : Int
  times : FillTimes
  long : fill.side = .buy ∨ fill.side = .sell

/-- The broker profile's charge for the requested quantity. -/
def CashFill.fees (order : CashFill) : Option Fees :=
  charge .ibkrProTieredV1 order.fill.side order.fill.qty (order.fill.px * order.fill.multiplier)
    order.kind order.day

/-- Charge and apply one fill. What raises leaves the book as it was. -/
def cashFillStep (settings : LedgerSettings) (book : Book) (order : CashFill) : Book :=
  match order.fees with
  | none => book
  | some fees =>
    match applyFill settings order.times book order.fill (some fees) with
    | .ok applied => applied.book
    | .error _ => book

/-- What a sale brings before its fee. -/
def saleProceeds (book : Book) (fill : Fill) : ℚ :=
  min fill.qty (book.position fill.ticker).qty * fill.px * fill.multiplier

/-- A sound sale of an instrument that is held. -/
def SaleReaches (book : Book) (fill : Fill) : Prop :=
  fill.side = .sell ∧ 0 < fill.qty ∧ 0 < fill.px ∧ 0 < fill.multiplier ∧
    0 < (book.position fill.ticker).qty

/-- A sale that reaches a holding brings its fee, if need be with the cash at hand. -/
def SaleCovered (book : Book) (order : CashFill) : Prop :=
  SaleReaches book order.fill → feeTotal order.fees ≤ book.cash + saleProceeds book order.fill

instance (book : Book) (fill : Fill) : Decidable (SaleReaches book fill) :=
  inferInstanceAs (Decidable (_ ∧ _))

instance (book : Book) (order : CashFill) : Decidable (SaleCovered book order) :=
  inferInstanceAs (Decidable (_ → _))

section Fills

variable {settings : LedgerSettings} {book : Book} {fill : Fill} {fees : Option Fees} {qty : ℚ}

/-- A clamped or unclamped buy leaves its fee in the cash. -/
theorem buy_funded (traded : fillQty settings book fill fees = .ok (some qty))
    (legacy : settings.accountType = .cashLegacy) (buy : fill.side = .buy) :
    qty * fill.px * fill.multiplier + feeTotal fees ≤ book.cash := by
  obtain ⟨_, _, priced, multiplied, _⟩ := fillQty_traded traded
  unfold fillQty at traded
  rcases checks : fillChecks settings (book.position fill.ticker) fill fees with raised | _ | _
  · simp [checks] at traded
  · simp [checks] at traded
  simp only [checks, tradedQty, buy, legacy, true_and] at traded
  split at traded
  · cases traded
  split at traded
  · rename_i short
    split at traded
    · cases traded
    · rename_i enough
      cases traded
      obtain ⟨positive, _⟩ := affordable_bounds priced multiplied short enough
      have unit : 0 < fill.px * fill.multiplier := mul_pos priced multiplied
      have worth : max (book.cash - feeTotal fees) 0 / (fill.px * fill.multiplier) * (1 - dust) *
          fill.px * fill.multiplier = max (book.cash - feeTotal fees) 0 * (1 - dust) := by
        field_simp
      have funded : 0 < max (book.cash - feeTotal fees) 0 := by
        by_contra none
        have zero : max (book.cash - feeTotal fees) 0 = 0 :=
          le_antisymm (not_lt.mp none) (le_max_right _ _)
        simp [zero] at positive
      have available : max (book.cash - feeTotal fees) 0 = book.cash - feeTotal fees :=
        max_eq_left (by
          by_contra short
          simp [max_eq_right (not_le.mp short).le] at funded)
      have margin : 0 < (book.cash - feeTotal fees) * dust :=
        mul_pos (available ▸ funded) (by norm_num [dust])
      rw [worth, available]
      linarith
  · rename_i funded
    cases traded
    linarith

/-- A sale trades the smaller of the request and the holding. -/
theorem sell_quantity (traded : fillQty settings book fill fees = .ok (some qty))
    (sell : fill.side = .sell) :
    SaleReaches book fill ∧ qty * fill.px * fill.multiplier = saleProceeds book fill := by
  unfold fillQty at traded
  rcases checks : fillChecks settings (book.position fill.ticker) fill fees with raised | _ | _
  · simp [checks] at traded
  · simp [checks] at traded
  simp only [checks, tradedQty, sell] at traded
  split at traded
  · cases traded
  · rename_i held
    obtain ⟨requested, priced, multiplied⟩ := fillChecks_positive checks
    cases traded
    exact ⟨⟨sell, requested, priced, multiplied, not_le.mp held⟩, rfl⟩

end Fills

section Steps

variable {settings : LedgerSettings} {book : Book} {order : CashFill}

/-- A step leaves the book, or it applies a quantity and debits the charge. -/
theorem cashFillStep_cases (settings : LedgerSettings) (book : Book) (order : CashFill) :
    cashFillStep settings book order = book ∨
      ∃ qty, fillQty settings book order.fill order.fees = .ok (some qty) ∧
        (cashFillStep settings book order).cash =
          book.cash - order.fill.side.sign * (qty * order.fill.px * order.fill.multiplier) -
            feeTotal order.fees := by
  cases charged : order.fees with
  | none => exact .inl (by simp only [cashFillStep, charged])
  | some fees =>
    cases filled : applyFill settings order.times book order.fill (some fees) with
    | error raised => exact .inl (by simp only [cashFillStep, charged, filled])
    | ok applied =>
      obtain ⟨_, rfl⟩ | ⟨qty, lots, trades, closes, traded, _, rfl⟩ := applyFill_cases filled
      · exact .inl (by simp only [cashFillStep, charged, filled])
      · exact .inr ⟨qty, traded, by simp only [cashFillStep, charged, filled, filledBook]⟩

theorem cashFillStep_solvent (legacy : settings.accountType = .cashLegacy)
    (solvent : 0 ≤ book.cash) (covered : SaleCovered book order) :
    0 ≤ (cashFillStep settings book order).cash := by
  obtain same | ⟨qty, traded, cash⟩ := cashFillStep_cases settings book order
  · rwa [same]
  rw [cash]
  rcases order.long with buy | sell
  · have funded := buy_funded traded legacy buy
    simp only [buy, Side.sign]
    linarith
  · obtain ⟨reaches, proceeds⟩ := sell_quantity traded sell
    have enough := covered reaches
    rw [proceeds]
    simp only [sell, Side.sign]
    linarith

end Steps

section Prices

variable (side : Side) {qty price : ℚ} (kind : FillKind) (day : Int)

end Prices

/-- Ten thousand shares of a penny stock. -/
def pennyOrder (side : Side) (px : ℚ) (day : Int) (long : side = .buy ∨ side = .sell) : CashFill :=
  { fill := ⟨some (1, day), "PENNY", side, 10000, px, 1⟩
    kind := .nextOpen
    day := day
    times := fun _ => none
    long := long }

/-- Bought for a cent a share with all the cash and sold for a hundredth of it. -/
def pennyOrders : List CashFill :=
  [pennyOrder .buy (1 / 100) (ordinal 2026 7 6) (.inl rfl),
    pennyOrder .sell (1 / 10000) (ordinal 2026 7 7) (.inr rfl)]

/-- The same shares sold for half a cent each. -/
def halfCentOrders : List CashFill :=
  [pennyOrder .buy (1 / 100) (ordinal 2026 7 6) (.inl rfl),
    pennyOrder .sell (1 / 200) (ordinal 2026 7 7) (.inr rfl)]

end TradingEngine.Costs
