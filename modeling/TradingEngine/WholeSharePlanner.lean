import TradingEngine.Runs

/-!
# The whole-share planner

The planner turns continuous target weights into orders for whole shares. It rounds the
targets down, sells first, buys SPY next and then the stocks in descending order of
alpha, each as far as the cash goes, and puts what is left into whole shares of SPY.
Where the plan then violates a constraint it drops discretionary stock buys in ascending
order of alpha, and reinvests in SPY after each.

Arrays over the names are functions of `Fin (n + 1)`: the stocks in order of their
tickers, and SPY last. Numbers are exact.
-/

namespace TradingEngine.Planner

open Runs

def nameCap : ℚ := 1 / 10
def sectorCap : ℚ := 3 / 10
def betaLow : ℚ := 8 / 10
def betaHigh : ℚ := 11 / 10

inductive SectorStatus where
  | available | sectorUnavailable
  deriving DecidableEq

variable {n : ℕ}

/-- An array over the stocks, with SPY last. -/
def withSpy {β : Type} (stocks : Fin n → β) (spy : β) : Fin (n + 1) → β :=
  @Fin.snoc n (fun _ => β) stocks spy

@[simp] theorem withSpy_castSucc {β : Type} (stocks : Fin n → β) (spy : β) (index : Fin n) :
    withSpy stocks spy index.castSucc = stocks index := @Fin.snoc_castSucc n (fun _ => β) _ _ _

@[simp] theorem withSpy_last {β : Type} (stocks : Fin n → β) (spy : β) :
    withSpy stocks spy (Fin.last n) = spy := @Fin.snoc_last n (fun _ => β) _ _

/-- Name, sector, funding and beta constraints. -/
structure Constraints (n : ℕ) where
  stockBeta : Fin n → ℚ
  normalized : Fin n → String

/-- The sector of a stock, with `normal` for a text that is stripped and lowered. -/
def normalizedSector (normal : String → String) : Option String → String
  | none => "unknown"
  | some value => if normal value = "" then "unknown" else normal value

namespace Constraints

variable (constraints : Constraints n)

def beta : Fin (n + 1) → ℚ := withSpy constraints.stockBeta 1

def sectorCoverage : ℚ :=
  if n = 0 then 1
  else ((List.finRange n).countP fun index => constraints.normalized index ≠ "unknown") / n

def sectorStatus : SectorStatus :=
  if 8 / 10 ≤ constraints.sectorCoverage then .available else .sectorUnavailable

/-- The group that the weight of a stock counts for. -/
def group (index : Fin n) : String :=
  match constraints.sectorStatus with
  | .available => constraints.normalized index
  | .sectorUnavailable => "all_stocks"

def groupWeight (weights : Fin (n + 1) → ℚ) (group : String) : ℚ :=
  ∑ index : Fin n, if constraints.group index = group then weights index.castSucc else 0

def lower : Fin (n + 1) → ℚ := fun _ => 0

def upper : Fin (n + 1) → ℚ := withSpy (fun _ : Fin n => nameCap) 1

/-- What may still be added to a name. -/
def room (weights : Fin (n + 1) → ℚ) (index : Fin (n + 1)) : ℚ :=
  if stock : index.val < n then
    min (upper index - weights index)
      (sectorCap - constraints.groupWeight weights (constraints.group ⟨index.val, stock⟩))
  else upper index - weights index

/-- The allocation of least or greatest beta. -/
def extreme (maximize : Bool) : Except String (Fin (n + 1) → ℚ) :=
  if 1 + 1 / 10 ^ 12 < ∑ index, lower (n := n) index ∨
      ∑ index, upper (n := n) index < 1 - 1 / 10 ^ 12 ∨
      ∃ index, sectorCap + 1 / 10 ^ 12 < constraints.groupWeight lower (constraints.group index)
  then .error "infeasible budget/sector bounds"
  else
    let order := (List.finRange (n + 1)).insertionSort fun one two =>
      if maximize then constraints.beta two ≤ constraints.beta one
      else constraints.beta one ≤ constraints.beta two
    let weights := order.foldl (fun weights index =>
      Function.update weights index (weights index +
        max 0 (min (constraints.room weights index) (1 - ∑ name, weights name)))) lower
    if 1 / 10 ^ 10 < |∑ index, weights index - 1| then .error "infeasible funded allocation"
    else .ok weights

def portfolioBeta (weights : Fin (n + 1) → ℚ) : ℚ :=
  ∑ index, constraints.beta index * weights index

def feasibleSeed : Except String (Fin (n + 1) → ℚ) :=
  (constraints.extreme false).bind fun low =>
    (constraints.extreme true).bind fun high =>
      let lowBeta := constraints.portfolioBeta low
      let highBeta := constraints.portfolioBeta high
      if betaHigh + 1 / 10 ^ 10 < lowBeta ∨ highBeta < betaLow - 1 / 10 ^ 10 then
        .error "infeasible beta interval"
      else if highBeta - lowBeta < 1 / 10 ^ 14 then .ok low
      else
        let target := min (max 1 (max lowBeta betaLow)) (min highBeta betaHigh)
        let scale := (target - lowBeta) / (highBeta - lowBeta)
        .ok fun index => low index + scale * (high index - low index)

/-- By how much weights miss the constraints at the most. -/
def violation (weights : Fin (n + 1) → ℚ) : ℚ :=
  ([|∑ index, weights index - 1|,
      betaLow - constraints.portfolioBeta weights,
      constraints.portfolioBeta weights - betaHigh] ++
    (List.finRange (n + 1)).map (fun index => lower index - weights index) ++
    (List.finRange (n + 1)).map (fun index => weights index - upper index) ++
    (List.finRange n).map fun index =>
      constraints.groupWeight weights (constraints.group index) - sectorCap).foldl max 0

end Constraints

/-- The exits that are forced: none, tickers alone, or tickers with reasons. -/
inductive MandatoryExits where
  | none_
  | tickers (exits : List String)
  | reasons (exits : List (String × String))

def MandatoryExits.exitReasons : MandatoryExits → List (String × String)
  | .none_ => []
  | .tickers exits => exits.map fun ticker => (ticker, "mandatory_exit")
  | .reasons exits => exits

/-- The entries of a dictionary. -/
def quotes (rows : List (String × ℚ)) (name : String) : Option ℚ := rows.lookup name

structure PlanInput where
  tickers : List String
  targetWeights : List ℚ
  currentQuantities : String → Option ℚ
  operationalPrices : String → Option ℚ
  cash : ℚ
  equity : ℚ
  beta : List ℚ
  sectors : List (Option String)
  alpha : List ℚ
  entryAtr : String → Option ℚ
  mandatoryExits : MandatoryExits

namespace PlanInput

variable (input : PlanInput)

def count : ℕ := input.tickers.length

def names : List String := input.tickers ++ ["SPY"]

def name : Fin (input.count + 1) → String :=
  withSpy (fun index : Fin input.count => input.tickers.get index) "SPY"

/-- The quantity of a name that is held before the plan. -/
def current (name : String) : ℚ := (input.currentQuantities name).getD 0

def price (name : String) : ℚ := (input.operationalPrices name).getD 0

def atr (name : String) : ℚ := (input.entryAtr name).getD 0

def target (index : Fin (input.count + 1)) : ℚ := input.targetWeights.getD index 0

/-- The tickers are sorted and distinct, and there is money. -/
def Listed : Prop :=
  input.tickers.Pairwise (· < ·) ∧ "SPY" ∉ input.tickers ∧ 0 < input.equity ∧ 0 ≤ input.cash

def Continuous : Prop :=
  input.targetWeights.length = input.count + 1 ∧ input.beta.length = input.count ∧
    input.alpha.length = input.count ∧ (∀ index, 0 ≤ input.target index) ∧
    |input.targetWeights.sum - 1| ≤ 1 / 10 ^ 8

def Positive : Prop :=
  (∀ index, 0 < input.price (input.name index)) ∧ (∀ ticker ∈ input.tickers, 0 < input.atr ticker) ∧
    ∀ index, 0 ≤ input.current (input.name index)

/-- Every forced exit is one of the tickers. -/
def Exits : Prop := ∀ row ∈ input.mandatoryExits.exitReasons, row.1 ∈ input.tickers

instance : Decidable input.Listed := inferInstanceAs (Decidable (_ ∧ _))
instance : Decidable input.Continuous := inferInstanceAs (Decidable (_ ∧ _))
instance : Decidable input.Positive := inferInstanceAs (Decidable (_ ∧ _))
instance : Decidable input.Exits := inferInstanceAs (Decidable (∀ _ ∈ _, _))

@[simp] theorem name_castSucc (index : Fin input.count) :
    input.name index.castSucc = input.tickers.get index :=
  withSpy_castSucc _ _ _

@[simp] theorem name_last : input.name (Fin.last _) = "SPY" :=
  withSpy_last _ _

end PlanInput

/-- An input that was accepted, as arrays over its names. -/
structure Problem (n : ℕ) where
  names : Fin (n + 1) → String
  target : Fin (n + 1) → ℚ
  price : Fin (n + 1) → ℚ
  current : Fin (n + 1) → ℚ
  exitReason : Fin (n + 1) → Option String
  atr : Fin n → ℚ
  alpha : Fin n → ℚ
  constraints : Constraints n
  cash : ℚ
  equity : ℚ
  ordered : StrictMono fun index : Fin n => names index.castSucc
  spyLast : names (Fin.last n) = "SPY"
  spyApart : ∀ index : Fin n, names index.castSucc ≠ "SPY"
  target_nonneg : ∀ index, 0 ≤ target index
  price_pos : ∀ index, 0 < price index
  current_nonneg : ∀ index, 0 ≤ current index
  spyStays : exitReason (Fin.last n) = none
  cash_nonneg : 0 ≤ cash
  equity_pos : 0 < equity

/-- The arrays of an input. -/
def PlanInput.problem (input : PlanInput) (constraints : Constraints input.count)
    (listed : input.Listed) (continuous : input.Continuous) (positive : input.Positive)
    (exits : input.Exits) : Problem input.count where
  names := input.name
  target := input.target
  price := fun index => input.price (input.name index)
  current := fun index => input.current (input.name index)
  exitReason := fun index => input.mandatoryExits.exitReasons.lookup (input.name index)
  atr := fun index => input.atr (input.tickers.get index)
  alpha := fun index => input.alpha.getD index 0
  constraints := constraints
  cash := input.cash
  equity := input.equity
  ordered := by
    intro one two before
    simp only [PlanInput.name_castSucc]
    exact listed.1.rel_get_of_lt before
  spyLast := input.name_last
  spyApart := by
    intro index same
    rw [PlanInput.name_castSucc] at same
    exact listed.2.1 (same ▸ List.get_mem _ _)
  target_nonneg := continuous.2.2.2.1
  price_pos := positive.1
  current_nonneg := positive.2.2
  spyStays := by
    rw [PlanInput.name_last, List.lookup_eq_none_iff]
    intro row member
    have ticker := exits row member
    have apart : "SPY" ≠ row.1 := fun same => listed.2.1 (same ▸ ticker)
    simpa using apart
  cash_nonneg := listed.2.2.2
  equity_pos := listed.2.2.1

/-- The checks of an input, in the planner's order. A text is normalized by `normal`. -/
def accept (normal : String → String) (input : PlanInput) :
    Except String (Problem input.count) :=
  if listed : input.Listed then
    if continuous : input.Continuous then
      if ∃ name ∈ input.names, input.operationalPrices name = none then
        .error "operational prices is incomplete"
      else if ∃ name ∈ input.tickers, input.entryAtr name = none then
        .error "entry ATR is incomplete"
      else if positive : input.Positive then
        if exits : input.Exits then
          if input.sectors.length ≠ input.count then .error "invalid beta/sector inputs"
          else
            let constraints : Constraints input.count :=
              { stockBeta := fun index => input.beta.getD index 0
                normalized := fun index => normalizedSector normal (input.sectors.getD index none) }
            constraints.feasibleSeed.map fun _ =>
              input.problem constraints listed continuous positive exits
        else .error "mandatory exit is outside the risk universe"
      else .error "invalid prices or current quantities"
    else .error "invalid continuous target"
  else .error "invalid whole-share planning universe"

/-- What is to be bought of each name, and the cash that is left for it. -/
structure Funding (n : ℕ) where
  purchases : Fin (n + 1) → ℚ
  cash : ℚ

/-- What is bought and what will be held of each name, and the cash that is left. -/
structure Plan (n : ℕ) where
  purchases : Fin (n + 1) → ℚ
  projected : Fin (n + 1) → ℚ
  cash : ℚ

inductive Side where
  | buy | sell
  deriving DecidableEq

structure PlannedOrder where
  ticker : String
  side : Side
  qty : ℚ
  orderRole : String
  targetWeight : ℚ
  entryAtr : Option ℚ
  deriving DecidableEq

inductive PlanStatus where
  | planned | roundedPlanInfeasible
  deriving DecidableEq

structure PlanResult where
  status : PlanStatus
  orders : List PlannedOrder
  projectedQuantities : Option (List (String × ℚ))
  projectedCash : Option ℚ
  cashWeight : Option ℚ
  portfolioBeta : Option ℚ
  sectorStatus : SectorStatus
  sectorCoverage : ℚ
  deriving DecidableEq

namespace Problem

variable (problem : Problem n)

/-- The target of a name in whole shares. -/
def desired (index : Fin (n + 1)) : ℚ :=
  if (problem.exitReason index).isSome then 0
  else ⌊problem.target index * problem.equity / problem.price index⌋

def delta (index : Fin (n + 1)) : ℚ := problem.desired index - problem.current index

/-- The cash after the sells. -/
def raised : ℚ :=
  problem.cash + ∑ index, -min (problem.delta index) 0 * problem.price index

/-- SPY is bought before the stocks. -/
def financeSpy : Funding n :=
  let purchases := fun index => max (problem.delta index) 0
  let bought : ℚ :=
    if problem.raised < purchases (Fin.last n) * problem.price (Fin.last n) then
      ⌊problem.raised / problem.price (Fin.last n)⌋
    else purchases (Fin.last n)
  { purchases := Function.update purchases (Fin.last n) bought
    cash := problem.raised - bought * problem.price (Fin.last n) }

/-- A stock is bought as far as the cash goes. -/
def buyStock (funding : Funding n) (stock : Fin n) : Funding n :=
  let affordable : ℚ := ⌊funding.cash / problem.price stock.castSucc⌋
  let bought := min (funding.purchases stock.castSucc) affordable
  { purchases := Function.update funding.purchases stock.castSucc bought
    cash := funding.cash - bought * problem.price stock.castSucc }

/-- Stocks in descending order of alpha. -/
def buyOrder : List (Fin n) :=
  (List.finRange n).insertionSort fun one two =>
    (toLex (-problem.alpha one, problem.names one.castSucc) : ℚ ×ₗ String) ≤
      toLex (-problem.alpha two, problem.names two.castSucc)

def funded : Funding n := problem.buyOrder.foldl problem.buyStock problem.financeSpy

/-- What cash is left goes into whole shares of SPY. -/
def reinvest (plan : Plan n) : Plan n :=
  let extraSpy : ℚ := ⌊plan.cash / problem.price (Fin.last n)⌋
  { purchases := Function.update plan.purchases (Fin.last n)
      (plan.purchases (Fin.last n) + extraSpy)
    projected := Function.update plan.projected (Fin.last n)
      (plan.projected (Fin.last n) + extraSpy)
    cash := plan.cash - extraSpy * problem.price (Fin.last n) }

/-- The plan before its repair. -/
def rounded : Plan n :=
  problem.reinvest
    { purchases := problem.funded.purchases
      projected := fun index =>
        problem.current index + min (problem.delta index) 0 + problem.funded.purchases index
      cash := problem.funded.cash }

def weights (plan : Plan n) (index : Fin (n + 1)) : ℚ :=
  plan.projected index * problem.price index / problem.equity

/-- The weights of the stocks, and SPY for the rest. -/
def fundedWeights (plan : Plan n) : Fin (n + 1) → ℚ :=
  withSpy (fun stock : Fin n => problem.weights plan stock.castSucc)
    (1 - ∑ stock : Fin n, problem.weights plan stock.castSucc)

/-- Whether a plan violates a constraint. -/
def invalid (plan : Plan n) : Bool :=
  let weights := problem.weights plan
  let constraints := problem.constraints
  let invested := ∑ stock : Fin n, weights stock.castSucc
  let actualBeta := constraints.portfolioBeta weights
  (∃ stock : Fin n, nameCap + 1 / 10 ^ 10 < weights stock.castSucc) ∨
    (match constraints.sectorStatus with
      | .sectorUnavailable => sectorCap
      | .available => 1) + 1 / 10 ^ 10 < invested ∨
    1 / 10 ^ 10 < constraints.violation (problem.fundedWeights plan) ∨
    actualBeta < betaLow - 1 / 10 ^ 10 ∨ betaHigh + 1 / 10 ^ 10 < actualBeta ∨
    plan.cash / problem.equity < -(1 / 10 ^ 12)

/-- Stocks in ascending order of alpha. -/
def repairOrder : List (Fin n) :=
  (List.finRange n).insertionSort fun one two =>
    (toLex (problem.alpha one, problem.names one.castSucc) : ℚ ×ₗ String) ≤
      toLex (problem.alpha two, problem.names two.castSucc)

/-- The buy of a stock is dropped, and its cash goes into SPY. -/
def dropBuy (plan : Plan n) (stock : Fin n) : Plan n :=
  problem.reinvest
    { purchases := Function.update plan.purchases stock.castSucc 0
      projected := Function.update plan.projected stock.castSucc
        (plan.projected stock.castSucc - plan.purchases stock.castSucc)
      cash := plan.cash + plan.purchases stock.castSucc * problem.price stock.castSucc }

/-- Buys are dropped until the plan is valid or a stock has no buy. -/
def repair : List (Fin n) → Plan n → Plan n
  | [], plan => plan
  | stock :: rest, plan =>
    if ¬ problem.invalid plan ∨ plan.purchases stock.castSucc ≤ 0 then plan
    else repair rest (problem.dropBuy plan stock)

def repaired : Plan n := problem.repair problem.repairOrder problem.rounded

/-- The sells of the stocks that must go, whatever becomes of the plan. -/
def mandatoryOrders : List PlannedOrder :=
  (List.finRange n).filterMap fun stock =>
    match problem.exitReason stock.castSucc with
    | none => none
    | some reason =>
      if 0 < problem.current stock.castSucc then
        some ⟨problem.names stock.castSucc, .sell, problem.current stock.castSucc, reason, 0, none⟩
      else none

def orderRole (index : Fin (n + 1)) : String :=
  match problem.exitReason index with
  | some reason => reason
  | none => if problem.names index = "SPY" then "spy_financing" else "rebalance"

def change (plan : Plan n) (index : Fin (n + 1)) : ℚ :=
  plan.projected index - problem.current index

/-- The order of a name, unless it hardly changes. -/
def order (plan : Plan n) (index : Fin (n + 1)) : Option PlannedOrder :=
  let change := problem.change plan index
  if |change| < 1 / 10 ^ 12 then none
  else some
    { ticker := problem.names index
      side := if 0 < change then .buy else .sell
      qty := |change|
      orderRole := problem.orderRole index
      targetWeight := problem.target index
      entryAtr := if stock : index.val < n then
        if 0 < change then some (problem.atr ⟨index.val, stock⟩) else none else none }

/-- The orders of a plan, sells first. -/
def orders (plan : Plan n) : List PlannedOrder :=
  ((List.finRange (n + 1)).filterMap (problem.order plan)).insertionSort fun one two =>
    (toLex (decide (one.side ≠ .sell), one.ticker) : Bool ×ₗ String) ≤
      toLex (decide (two.side ≠ .sell), two.ticker)

def result : PlanResult :=
  let plan := problem.repaired
  if problem.invalid plan then
    { status := .roundedPlanInfeasible
      orders := problem.mandatoryOrders
      projectedQuantities := none, projectedCash := none, cashWeight := none, portfolioBeta := none
      sectorStatus := problem.constraints.sectorStatus
      sectorCoverage := problem.constraints.sectorCoverage }
  else
    { status := .planned
      orders := problem.orders plan
      projectedQuantities := (List.finRange (n + 1)).map fun index =>
        (problem.names index, plan.projected index)
      projectedCash := plan.cash
      cashWeight := plan.cash / problem.equity
      portfolioBeta := problem.constraints.portfolioBeta (problem.weights plan)
      sectorStatus := problem.constraints.sectorStatus
      sectorCoverage := problem.constraints.sectorCoverage }

end Problem

def planWholeShareOrders (normal : String → String) (input : PlanInput) :
    Except String PlanResult :=
  (accept normal input).map Problem.result

end TradingEngine.Planner
