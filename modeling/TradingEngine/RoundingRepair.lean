import TradingEngine.FundedPlans

/-!
# How far the repair of a plan reaches

The repair is meant to drop discretionary buys in ascending order of alpha until the
plan is valid. Its loop goes over all stocks in that order, and stops at the first one
without a buy. Only the buys before it are ever dropped: a plan that becomes valid with
a buy behind it stays infeasible.
-/

namespace TradingEngine.Planner

open Runs

variable {n : ℕ}

/-- Predicates that agree on a list stop in the same place. -/
theorem takeWhile_congr {α : Type*} {one two : α → Bool} {elements : List α}
    (same : ∀ element ∈ elements, one element = two element) :
    elements.takeWhile one = elements.takeWhile two := by
  induction elements with
  | nil => rfl
  | cons first rest ih =>
    rw [List.takeWhile_cons, List.takeWhile_cons, same first List.mem_cons_self,
      ih fun element listed => same element (List.mem_cons_of_mem _ listed)]

namespace Problem

variable (problem : Problem n)

/-- Whether a plan buys a stock. -/
def buys (plan : Plan n) (stock : Fin n) : Bool := 0 < plan.purchases stock.castSucc

/-- The discretionary buys in ascending order of alpha. -/
def discretionaryBuys : List (Fin n) :=
  problem.repairOrder.filter fun stock => buys problem.rounded stock

/-- The buys before the first stock without a buy. -/
def unbrokenBuys : List (Fin n) :=
  problem.repairOrder.takeWhile fun stock => buys problem.rounded stock

/-- The plan without the first buys in ascending order of alpha. -/
def without (count : ℕ) : Plan n :=
  (problem.discretionaryBuys.take count).foldl problem.dropBuy problem.rounded

/-- Some number of removals satisfies all constraints. -/
def Repairable : Prop := ∃ count, problem.invalid (problem.without count) = false

/-- Some number of removals before the first stock without a buy does. -/
def RepairableUnbroken : Prop :=
  ∃ count ≤ problem.unbrokenBuys.length, problem.invalid (problem.without count) = false

theorem dropBuy_purchases {plan : Plan n} {stock other : Fin n} (apart : other ≠ stock) :
    (problem.dropBuy plan stock).purchases other.castSucc = plan.purchases other.castSucc := by
  have spy : other.castSucc ≠ Fin.last n := (Fin.castSucc_lt_last other).ne
  have differs : other.castSucc ≠ stock.castSucc := fun same =>
    apart (Fin.castSucc_injective n same)
  unfold dropBuy reinvest
  dsimp only
  rw [Function.update_of_ne spy, Function.update_of_ne differs]

/-- The repair succeeds if its buys can be dropped up to some stock. -/
theorem repair_valid_iff {stocks : List (Fin n)} {plan : Plan n} (distinct : stocks.Nodup) :
    problem.invalid (problem.repair stocks plan) = false ↔
      ∃ count ≤ (stocks.takeWhile (buys plan)).length, problem.invalid
        (((stocks.takeWhile (buys plan)).take count).foldl problem.dropBuy plan) = false := by
  induction stocks generalizing plan with
  | nil => simp [repair]
  | cons stock rest ih =>
    obtain ⟨apart, others⟩ := List.nodup_cons.mp distinct
    rw [repair]
    split_ifs with stops
    · constructor
      · intro valid
        exact ⟨0, Nat.zero_le _, valid⟩
      · rintro ⟨count, within_, valid⟩
        rcases stops with already | empty
        · exact Bool.eq_false_iff.mpr already
        · have none_ : buys plan stock = false := decide_eq_false (not_lt.mpr empty)
          rw [List.takeWhile_cons_of_neg (by simp [none_])] at within_ valid
          simpa using valid
    · simp only [not_or, not_not, not_le] at stops
      have bought : buys plan stock = true := decide_eq_true stops.2
      have same : rest.takeWhile (buys (problem.dropBuy plan stock)) =
          rest.takeWhile (buys plan) := by
        apply takeWhile_congr
        intro other listed
        unfold buys
        rw [problem.dropBuy_purchases]
        rintro rfl
        exact apart listed
      rw [ih others, same, List.takeWhile_cons_of_pos bought]
      constructor
      · rintro ⟨count, within_, valid⟩
        exact ⟨count + 1, Nat.succ_le_succ within_, valid⟩
      · rintro ⟨count, within_, valid⟩
        cases count with
        | zero => exact absurd valid (by simpa using stops.1)
        | succ count => exact ⟨count, Nat.le_of_succ_le_succ within_, valid⟩

theorem nodup_repairOrder : problem.repairOrder.Nodup :=
  (List.perm_insertionSort _ _).nodup_iff.mpr (List.nodup_finRange n)

/-- The buys before the first stock without one are the first buys. -/
theorem take_discretionaryBuys {count : ℕ} (within_ : count ≤ problem.unbrokenBuys.length) :
    problem.discretionaryBuys.take count = problem.unbrokenBuys.take count := by
  have split_ : problem.discretionaryBuys = problem.unbrokenBuys ++
      (problem.repairOrder.dropWhile (buys problem.rounded)).filter (buys problem.rounded) := by
    unfold discretionaryBuys unbrokenBuys
    conv_lhs => rw [← List.takeWhile_append_dropWhile (p := buys problem.rounded)
      (l := problem.repairOrder)]
    rw [List.filter_append, List.filter_eq_self.mpr]
    intro stock listed
    exact List.mem_takeWhile_imp listed
  rw [split_, List.take_append_of_le_length within_]

/-- The repair reaches the buys before the first stock without one, and no others. -/
theorem repaired_valid_iff :
    problem.invalid problem.repaired = false ↔ problem.RepairableUnbroken := by
  unfold repaired RepairableUnbroken without
  rw [problem.repair_valid_iff problem.nodup_repairOrder]
  constructor
  · rintro ⟨count, within_, valid⟩
    refine ⟨count, within_, ?_⟩
    rw [problem.take_discretionaryBuys within_]
    exact valid
  · rintro ⟨count, within_, valid⟩
    refine ⟨count, within_, ?_⟩
    rw [problem.take_discretionaryBuys within_] at valid
    exact valid

theorem result_planned_iff :
    problem.result.status = .planned ↔ problem.invalid problem.repaired = false := by
  unfold result
  dsimp only
  split_ifs with invalid <;> simp [invalid]

end Problem

section Results

variable {normal : String → String} {input : PlanInput}

/-- The repair is complete for a plan if, where some number of removals is valid, one is
that comes before every stock without a buy. -/
theorem planWholeShareOrders_complete_iff {problem : Problem input.count} {result : PlanResult}
    (accepted : accept normal input = .ok problem)
    (returned : planWholeShareOrders normal input = .ok result) :
    (problem.Repairable → result.status = .planned) ∧
        (result.status = .roundedPlanInfeasible → ¬ problem.Repairable) ↔
      (problem.Repairable → problem.RepairableUnbroken) := by
  unfold planWholeShareOrders at returned
  rw [accepted] at returned
  cases returned
  have planned : problem.result.status = .planned ↔ problem.RepairableUnbroken :=
    problem.result_planned_iff.trans problem.repaired_valid_iff
  constructor
  · rintro ⟨complete, -⟩ repairable
    exact planned.mp (complete repairable)
  · intro reaches
    have complete : problem.Repairable → problem.result.status = .planned := fun repairable =>
      planned.mpr (reaches repairable)
    refine ⟨complete, fun infeasible repairable => ?_⟩
    rw [complete repairable] at infeasible
    cases infeasible

end Results

/-- Four stocks of which the last in alpha is not bought. -/
def fourStocks : PlanInput where
  tickers := ["AAA", "BBB", "CCC", "DDD"]
  targetWeights := [1 / 10, 1 / 10, 1 / 10, 0, 7 / 10]
  currentQuantities := fun _ => none
  operationalPrices :=
    quotes [("AAA", 100), ("BBB", 100), ("CCC", 100), ("DDD", 100), ("SPY", 3000)]
  cash := 10000
  equity := 10000
  beta := [1 / 2, 1 / 2, 1 / 2, 1 / 2]
  sectors := [some "a", some "b", some "c", some "d"]
  alpha := [3, 2, 1, 0]
  entryAtr := quotes [("AAA", 1), ("BBB", 1), ("CCC", 1), ("DDD", 1)]
  mandatoryExits := .none_

/-- The same without the stock that is not bought. -/
def threeStocks : PlanInput where
  tickers := ["AAA", "BBB", "CCC"]
  targetWeights := [1 / 10, 1 / 10, 1 / 10, 7 / 10]
  currentQuantities := fun _ => none
  operationalPrices := quotes [("AAA", 100), ("BBB", 100), ("CCC", 100), ("SPY", 3000)]
  cash := 10000
  equity := 10000
  beta := [1 / 2, 1 / 2, 1 / 2]
  sectors := [some "a", some "b", some "c"]
  alpha := [3, 2, 1]
  entryAtr := quotes [("AAA", 1), ("BBB", 1), ("CCC", 1)]
  mandatoryExits := .none_

theorem accepted_check (input : PlanInput) (check : Problem input.count → Bool)
    (passes : (accept id input).toOption.any check = true) :
    ∃ problem, accept id input = .ok problem ∧ check problem = true := by
  cases accepted : accept id input with
  | error reason => simp [accepted, Except.toOption] at passes
  | ok problem => exact ⟨problem, rfl, by simpa [accepted, Except.toOption] using passes⟩

/-- Two removals would do, but the loop stops before the first. -/
theorem fourStocks_infeasible : ∃ problem result,
    accept id fourStocks = .ok problem ∧ planWholeShareOrders id fourStocks = .ok result ∧
      problem.Repairable ∧ result.status = .roundedPlanInfeasible := by
  obtain ⟨problem, accepted, passes⟩ := accepted_check fourStocks (fun problem =>
    !problem.invalid (problem.without 2) &&
      decide (problem.result.status = .roundedPlanInfeasible)) (by decide +kernel)
  simp only [Bool.and_eq_true, Bool.not_eq_true', decide_eq_true_eq] at passes
  refine ⟨problem, problem.result, accepted, ?_, ⟨2, passes.1⟩, passes.2⟩
  exact map_ok.mpr ⟨problem, accepted, rfl⟩

/-- Without that stock the two removals are made. -/
theorem threeStocks_planned : ∃ problem result,
    accept id threeStocks = .ok problem ∧ planWholeShareOrders id threeStocks = .ok result ∧
      problem.Repairable ∧ result.status = .planned := by
  obtain ⟨problem, accepted, passes⟩ := accepted_check threeStocks (fun problem =>
    !problem.invalid (problem.without 2) && decide (2 ≤ problem.unbrokenBuys.length))
    (by decide +kernel)
  simp only [Bool.and_eq_true, Bool.not_eq_true', decide_eq_true_eq] at passes
  have returned : planWholeShareOrders id threeStocks = .ok problem.result :=
    map_ok.mpr ⟨problem, accepted, rfl⟩
  refine ⟨problem, problem.result, accepted, returned, ⟨2, passes.1⟩, ?_⟩
  have complete := (planWholeShareOrders_complete_iff accepted returned).mpr fun _ =>
    ⟨2, passes.2, passes.1⟩
  exact complete.1 ⟨2, passes.1⟩

end TradingEngine.Planner
