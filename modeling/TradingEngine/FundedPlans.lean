import TradingEngine.WholeSharePlanner

/-!
# A plan finances itself

Sells raise cash, and every later pass spends of it what it can afford in whole shares
or takes back what a dropped buy had cost. The cash and what is bought are worth what
was raised after each pass, whatever the alphas and the prices are. Nothing is sold that
is not held, and a forced exit is sold entirely and not bought again.

Purchases are whole where the holding is. A holding with a fraction is brought to its
target in whole shares, and a change of almost nothing has no order.
-/

namespace TradingEngine.Planner

open Runs

variable {n : ℕ}

/-- A whole number of shares. -/
def Whole (quantity : ℚ) : Prop := ∃ shares : ℤ, (shares : ℚ) = quantity

instance (quantity : ℚ) : Decidable (Whole quantity) :=
  decidable_of_iff (quantity.num = quantity) ⟨fun same => ⟨quantity.num, same⟩, by
    rintro ⟨shares, rfl⟩
    rw [Rat.num_intCast]⟩

theorem Whole.add {one two : ℚ} (first : Whole one) (second : Whole two) : Whole (one + two) := by
  obtain ⟨left, rfl⟩ := first
  obtain ⟨right, rfl⟩ := second
  exact ⟨left + right, by push_cast; rfl⟩

theorem Whole.sub {one two : ℚ} (first : Whole one) (second : Whole two) : Whole (one - two) := by
  obtain ⟨left, rfl⟩ := first
  obtain ⟨right, rfl⟩ := second
  exact ⟨left - right, by push_cast; rfl⟩

/-- A whole number of shares that is almost nothing is nothing. -/
theorem Whole.eq_zero {quantity : ℚ} (whole : Whole quantity) (small : |quantity| < 1) :
    quantity = 0 := by
  obtain ⟨shares, rfl⟩ := whole
  have none : |shares| < 1 := by exact_mod_cast small
  rw [Int.abs_lt_one_iff.mp none, Int.cast_zero]

theorem floor_whole (amount : ℚ) : Whole (⌊amount⌋ : ℚ) := ⟨⌊amount⌋, rfl⟩

/-- Whole shares that cash affords cost no more than it. -/
theorem affordable {cash price : ℚ} (positive : 0 < price) :
    (⌊cash / price⌋ : ℚ) * price ≤ cash := by
  calc (⌊cash / price⌋ : ℚ) * price ≤ cash / price * price :=
        mul_le_mul_of_nonneg_right (Int.floor_le _) positive.le
    _ = cash := div_mul_cancel₀ _ positive.ne'

theorem floor_nonneg {amount : ℚ} (positive : 0 ≤ amount) : 0 ≤ (⌊amount⌋ : ℚ) := by
  exact_mod_cast Int.floor_nonneg.mpr positive

namespace Problem

variable (problem : Problem n)

/-- What quantities are worth at the operational prices. -/
def worth (quantities : Fin (n + 1) → ℚ) : ℚ := ∑ index, quantities index * problem.price index

theorem worth_update (quantities : Fin (n + 1) → ℚ) (index : Fin (n + 1)) (quantity : ℚ) :
    problem.worth (Function.update quantities index quantity) =
      problem.worth quantities + (quantity - quantities index) * problem.price index := by
  have change : ∑ other, (Function.update quantities index quantity other - quantities other) *
      problem.price other = (quantity - quantities index) * problem.price index := by
    rw [Finset.sum_eq_single index]
    · rw [Function.update_self]
    · intro other _ apart
      rw [Function.update_of_ne apart, sub_self, zero_mul]
    · intro missing
      exact absurd (Finset.mem_univ index) missing
  simp only [sub_mul, Finset.sum_sub_distrib] at change
  unfold worth
  linarith

theorem worth_add (one two : Fin (n + 1) → ℚ) :
    problem.worth (fun index => one index + two index) = problem.worth one + problem.worth two := by
  simp only [worth, add_mul, Finset.sum_add_distrib]

theorem desired_whole (index : Fin (n + 1)) : Whole (problem.desired index) := by
  unfold desired
  split
  · exact ⟨0, Int.cast_zero⟩
  · exact floor_whole _

theorem desired_nonneg (index : Fin (n + 1)) : 0 ≤ problem.desired index := by
  unfold desired
  split
  · exact le_rfl
  · apply floor_nonneg
    apply div_nonneg _ (problem.price_pos index).le
    exact mul_nonneg (problem.target_nonneg index) problem.equity_pos.le

/-- A name that must go is not bought. -/
theorem delta_of_exit {index : Fin (n + 1)} (exits : (problem.exitReason index).isSome = true) :
    problem.delta index = -problem.current index := by
  unfold delta desired
  rw [if_pos exits, zero_sub]

theorem raised_nonneg : 0 ≤ problem.raised := by
  unfold raised
  apply add_nonneg problem.cash_nonneg
  apply Finset.sum_nonneg
  intro index _
  apply mul_nonneg _ (problem.price_pos index).le
  exact neg_nonneg.mpr (min_le_right _ _)

/-- What is bought of the names that are no longer pending. -/
def settled (pending : List (Fin n)) (purchases : Fin (n + 1) → ℚ) (index : Fin (n + 1)) : ℚ :=
  if ∃ stock ∈ pending, stock.castSucc = index then 0 else purchases index

/-- A funding whose pending stocks are not paid yet. -/
structure Funded (pending : List (Fin n)) (funding : Funding n) : Prop where
  cash_nonneg : 0 ≤ funding.cash
  bought : ∀ index, 0 ≤ funding.purchases index
  within_ : ∀ index, funding.purchases index ≤ max (problem.delta index) 0
  whole : ∀ index, funding.purchases index = max (problem.delta index) 0 ∨
    Whole (funding.purchases index)
  spent : funding.cash + problem.worth (settled pending funding.purchases) = problem.raised

theorem mem_buyOrder (stock : Fin n) : stock ∈ problem.buyOrder :=
  (List.mem_insertionSort _).mpr (List.mem_finRange stock)

theorem nodup_buyOrder : problem.buyOrder.Nodup :=
  (List.perm_insertionSort _ _).nodup_iff.mpr (List.nodup_finRange n)

/-- With every stock pending, SPY alone is paid. -/
theorem worth_settled_all {pending : List (Fin n)} (all : ∀ stock, stock ∈ pending)
    (purchases : Fin (n + 1) → ℚ) :
    problem.worth (settled pending purchases) =
      purchases (Fin.last n) * problem.price (Fin.last n) := by
  unfold worth
  rw [Fin.sum_univ_castSucc]
  have spy : ¬ ∃ stock ∈ pending, stock.castSucc = Fin.last n := by
    rintro ⟨stock, -, same⟩
    exact (Fin.castSucc_lt_last stock).ne same
  have unpaid : ∀ stock : Fin n, settled pending purchases stock.castSucc = 0 := fun stock =>
    if_pos ⟨stock, all stock, rfl⟩
  simp only [unpaid, zero_mul, Finset.sum_const_zero, zero_add]
  rw [settled, if_neg spy]

theorem financeSpy_funded : problem.Funded problem.buyOrder problem.financeSpy := by
  have priced := problem.price_pos (Fin.last n)
  have raised := problem.raised_nonneg
  unfold financeSpy
  dsimp only
  split
  · rename_i short
    have cost : (⌊problem.raised / problem.price (Fin.last n)⌋ : ℚ) *
        problem.price (Fin.last n) ≤ problem.raised := affordable priced
    have fewer : (⌊problem.raised / problem.price (Fin.last n)⌋ : ℚ) ≤
        max (problem.delta (Fin.last n)) 0 :=
      le_of_mul_le_mul_right (cost.trans short.le) priced
    have positive := floor_nonneg (div_nonneg raised priced.le)
    constructor
    · exact sub_nonneg.mpr cost
    · intro index
      rcases eq_or_ne index (Fin.last n) with rfl | apart
      · simpa only [Function.update_self] using positive
      · simp only [Function.update_of_ne apart, le_max_right]
    · intro index
      rcases eq_or_ne index (Fin.last n) with rfl | apart
      · simpa only [Function.update_self] using fewer
      · simp only [Function.update_of_ne apart, le_refl]
    · intro index
      rcases eq_or_ne index (Fin.last n) with rfl | apart
      · right
        simpa only [Function.update_self] using floor_whole _
      · left
        simp only [Function.update_of_ne apart]
    · rw [worth_settled_all problem problem.mem_buyOrder]
      simp only [Function.update_self, sub_add_cancel]
  · rename_i enough
    simp only [Function.update_eq_self]
    constructor
    · exact sub_nonneg.mpr (not_lt.mp enough)
    · intro index
      exact le_max_right _ _
    · intro index
      exact le_rfl
    · intro index
      exact .inl rfl
    · rw [worth_settled_all problem problem.mem_buyOrder]
      exact sub_add_cancel _ _

/-- To pay a pending stock changes what is settled at that stock alone. -/
theorem settled_update {stock : Fin n} {pending : List (Fin n)} (distinct : stock ∉ pending)
    (purchases : Fin (n + 1) → ℚ) (bought : ℚ) :
    settled pending (Function.update purchases stock.castSucc bought) =
      Function.update (settled (stock :: pending) purchases) stock.castSucc bought := by
  funext index
  rcases eq_or_ne index stock.castSucc with rfl | apart
  · have paid : ¬ ∃ other ∈ pending, other.castSucc = stock.castSucc := by
      rintro ⟨other, listed, same⟩
      exact distinct (Fin.castSucc_injective n same ▸ listed)
    rw [settled, if_neg paid, Function.update_self, Function.update_self]
  · rw [Function.update_of_ne apart, settled, settled, Function.update_of_ne apart]
    have same : (∃ other ∈ stock :: pending, other.castSucc = index) ↔
        ∃ other ∈ pending, other.castSucc = index := by
      simp only [List.mem_cons, exists_eq_or_imp, apart.symm, false_or]
    simp only [same]

theorem buyStock_funded {stock : Fin n} {pending : List (Fin n)} {funding : Funding n}
    (distinct : stock ∉ pending) (funded : problem.Funded (stock :: pending) funding) :
    problem.Funded pending (problem.buyStock funding stock) := by
  have priced := problem.price_pos stock.castSucc
  set affordableShares : ℚ :=
    ((⌊funding.cash / problem.price stock.castSucc⌋ : ℤ) : ℚ) with shares
  have cost : affordableShares * problem.price stock.castSucc ≤ funding.cash := affordable priced
  have positive : 0 ≤ affordableShares := floor_nonneg (div_nonneg funded.cash_nonneg priced.le)
  set bought := min (funding.purchases stock.castSucc) affordableShares with amount
  have least : bought ≤ affordableShares := min_le_right _ _
  have fewer : bought ≤ funding.purchases stock.castSucc := min_le_left _ _
  have after : problem.buyStock funding stock =
      { purchases := Function.update funding.purchases stock.castSucc bought
        cash := funding.cash - bought * problem.price stock.castSucc } := rfl
  rw [after]
  constructor
  · exact sub_nonneg.mpr ((mul_le_mul_of_nonneg_right least priced.le).trans cost)
  · intro index
    rcases eq_or_ne index stock.castSucc with rfl | apart
    · simpa only [Function.update_self] using le_min (funded.bought _) positive
    · simpa only [Function.update_of_ne apart] using funded.bought index
  · intro index
    rcases eq_or_ne index stock.castSucc with rfl | apart
    · simpa only [Function.update_self] using fewer.trans (funded.within_ _)
    · simpa only [Function.update_of_ne apart] using funded.within_ index
  · intro index
    rcases eq_or_ne index stock.castSucc with rfl | apart
    · simp only [Function.update_self]
      rcases min_choice (funding.purchases stock.castSucc) affordableShares with all | part
      · rw [amount, all]
        exact funded.whole _
      · right
        rw [amount, part]
        exact floor_whole _
    · simpa only [Function.update_of_ne apart] using funded.whole index
  · have unpaid : settled (stock :: pending) funding.purchases stock.castSucc = 0 :=
      if_pos ⟨stock, List.mem_cons_self, rfl⟩
    have before := funded.spent
    dsimp only
    rw [settled_update distinct, worth_update, unpaid]
    linarith

theorem buyStocks_funded {pending : List (Fin n)} {funding : Funding n} (distinct : pending.Nodup)
    (funded : problem.Funded pending funding) :
    problem.Funded [] (pending.foldl problem.buyStock funding) := by
  induction pending generalizing funding with
  | nil => exact funded
  | cons stock rest ih =>
    obtain ⟨apart, others⟩ := List.nodup_cons.mp distinct
    exact ih others (problem.buyStock_funded apart funded)

theorem funded_funded : problem.Funded [] problem.funded :=
  problem.buyStocks_funded problem.nodup_buyOrder problem.financeSpy_funded

/-- A plan that spends what was raised, and no more. -/
structure Balanced (plan : Plan n) : Prop where
  cash_nonneg : 0 ≤ plan.cash
  bought : ∀ index, 0 ≤ plan.purchases index
  held : ∀ index, plan.projected index =
    problem.current index + min (problem.delta index) 0 + plan.purchases index
  whole : ∀ index, Whole (problem.change plan index) ∨ Whole (plan.projected index)
  spent : plan.cash + problem.worth plan.purchases = problem.raised
  exits : ∀ index, (problem.exitReason index).isSome = true → plan.purchases index = 0

/-- A name that is not bought keeps its holding or comes down to its target. -/
theorem unbought_whole (index : Fin (n + 1)) :
    Whole (min (problem.delta index) 0) ∨
      Whole (problem.current index + min (problem.delta index) 0) := by
  rcases min_choice (problem.delta index) 0 with sold | kept
  · right
    rw [sold, delta, add_sub_cancel]
    exact problem.desired_whole index
  · left
    rw [kept]
    exact ⟨0, Int.cast_zero⟩

/-- What is bought of a name is whole or brings it to its target. -/
theorem bought_whole {index : Fin (n + 1)} {bought : ℚ} (nonneg : 0 ≤ bought)
    (within_ : bought ≤ max (problem.delta index) 0)
    (whole : bought = max (problem.delta index) 0 ∨ Whole bought) :
    Whole (min (problem.delta index) 0 + bought) ∨
      Whole (problem.current index + min (problem.delta index) 0 + bought) := by
  rcases le_total (problem.delta index) 0 with sold | short
  · rw [max_eq_right sold] at within_
    have nothing : bought = 0 := le_antisymm within_ nonneg
    rw [nothing, add_zero, add_zero]
    exact problem.unbought_whole index
  · rw [min_eq_right short, zero_add, add_zero]
    rcases whole with all | part
    · right
      rw [all, max_eq_left short, delta, add_sub_cancel]
      exact problem.desired_whole index
    · exact .inl part

/-- Whole shares of SPY keep a plan as it has to be. -/
theorem reinvest_balanced {plan : Plan n} (balanced : problem.Balanced plan) :
    problem.Balanced (problem.reinvest plan) := by
  have priced := problem.price_pos (Fin.last n)
  set extra : ℚ := ((⌊plan.cash / problem.price (Fin.last n)⌋ : ℤ) : ℚ) with shares
  have cost : extra * problem.price (Fin.last n) ≤ plan.cash := affordable priced
  have positive : 0 ≤ extra := floor_nonneg (div_nonneg balanced.cash_nonneg priced.le)
  have after : problem.reinvest plan =
      { purchases := Function.update plan.purchases (Fin.last n)
          (plan.purchases (Fin.last n) + extra)
        projected := Function.update plan.projected (Fin.last n)
          (plan.projected (Fin.last n) + extra)
        cash := plan.cash - extra * problem.price (Fin.last n) } := rfl
  rw [after]
  constructor
  · exact sub_nonneg.mpr cost
  · intro index
    rcases eq_or_ne index (Fin.last n) with rfl | apart
    · simpa only [Function.update_self] using add_nonneg (balanced.bought _) positive
    · simpa only [Function.update_of_ne apart] using balanced.bought index
  · intro index
    rcases eq_or_ne index (Fin.last n) with rfl | apart
    · simp only [Function.update_self]
      rw [balanced.held, add_assoc]
    · simpa only [Function.update_of_ne apart] using balanced.held index
  · intro index
    unfold change
    rcases eq_or_ne index (Fin.last n) with rfl | apart
    · simp only [Function.update_self]
      rw [add_sub_right_comm]
      exact (balanced.whole (Fin.last n)).imp (Whole.add · (floor_whole _))
        (Whole.add · (floor_whole _))
    · simpa only [Function.update_of_ne apart, change] using balanced.whole index
  · have before := balanced.spent
    dsimp only
    rw [worth_update]
    linarith
  · intro index exits
    rcases eq_or_ne index (Fin.last n) with rfl | apart
    · rw [problem.spyStays] at exits
      cases exits
    · simpa only [Function.update_of_ne apart] using balanced.exits index exits

theorem rounded_balanced : problem.Balanced problem.rounded := by
  have funded := problem.funded_funded
  apply problem.reinvest_balanced
  constructor
  · exact funded.cash_nonneg
  · exact funded.bought
  · intro index
    rfl
  · intro index
    have whole := problem.bought_whole (funded.bought index) (funded.within_ index)
      (funded.whole index)
    unfold change
    dsimp only
    rw [add_assoc, add_sub_cancel_left, ← add_assoc]
    exact whole
  · have spent := funded.spent
    have paid : settled [] problem.funded.purchases = problem.funded.purchases := by
      funext index
      apply if_neg
      rintro ⟨stock, listed, -⟩
      cases listed
    rwa [paid] at spent
  · intro index exits
    have most := funded.within_ index
    rw [problem.delta_of_exit exits,
      max_eq_right (neg_nonpos.mpr (problem.current_nonneg index))] at most
    exact le_antisymm most (funded.bought index)

theorem dropBuy_balanced {plan : Plan n} (stock : Fin n) (balanced : problem.Balanced plan) :
    problem.Balanced (problem.dropBuy plan stock) := by
  have priced := problem.price_pos stock.castSucc
  apply problem.reinvest_balanced
  constructor
  · exact add_nonneg balanced.cash_nonneg (mul_nonneg (balanced.bought _) priced.le)
  · intro index
    rcases eq_or_ne index stock.castSucc with rfl | apart
    · simp only [Function.update_self, le_refl]
    · simpa only [Function.update_of_ne apart] using balanced.bought index
  · intro index
    rcases eq_or_ne index stock.castSucc with rfl | apart
    · simp only [Function.update_self]
      rw [balanced.held, add_sub_cancel_right, add_zero]
    · simpa only [Function.update_of_ne apart] using balanced.held index
  · intro index
    unfold change
    rcases eq_or_ne index stock.castSucc with rfl | apart
    · simp only [Function.update_self]
      rw [balanced.held, add_sub_cancel_right, add_sub_cancel_left]
      exact problem.unbought_whole stock.castSucc
    · simpa only [Function.update_of_ne apart, change] using balanced.whole index
  · have before := balanced.spent
    dsimp only
    rw [worth_update]
    linarith
  · intro index exits
    rcases eq_or_ne index stock.castSucc with rfl | apart
    · simp only [Function.update_self]
    · simpa only [Function.update_of_ne apart] using balanced.exits index exits

theorem repair_balanced {stocks : List (Fin n)} {plan : Plan n} (balanced : problem.Balanced plan) :
    problem.Balanced (problem.repair stocks plan) := by
  induction stocks generalizing plan with
  | nil => exact balanced
  | cons stock rest ih =>
    rw [repair]
    split
    · exact balanced
    · exact ih (problem.dropBuy_balanced stock balanced)

theorem repaired_balanced : problem.Balanced problem.repaired :=
  problem.repair_balanced problem.rounded_balanced

variable {problem}
variable {plan : Plan n}

/-- No more is sold than is held. -/
theorem Balanced.projected_nonneg (balanced : problem.Balanced plan) (index : Fin (n + 1)) :
    0 ≤ plan.projected index := by
  rw [balanced.held]
  apply add_nonneg _ (balanced.bought index)
  rcases min_choice (problem.delta index) 0 with sold | kept
  · rw [sold, delta, add_sub_cancel]
    exact problem.desired_nonneg index
  · rw [kept, add_zero]
    exact problem.current_nonneg index

theorem Balanced.balance (balanced : problem.Balanced plan) :
    plan.cash + problem.worth plan.projected = problem.cash + problem.worth problem.current := by
  have held : plan.projected = fun index =>
      (problem.current index + min (problem.delta index) 0) + plan.purchases index :=
    funext balanced.held
  have raised : problem.raised =
      problem.cash - problem.worth fun index => min (problem.delta index) 0 := by
    unfold raised worth
    simp only [neg_mul, Finset.sum_neg_distrib]
    exact (sub_eq_add_neg _ _).symm
  have spent := balanced.spent
  rw [held, worth_add, worth_add]
  linarith

/-- A name that must go is gone. -/
theorem Balanced.exited (balanced : problem.Balanced plan) {index : Fin (n + 1)}
    (exits : (problem.exitReason index).isSome = true) : plan.projected index = 0 := by
  have nonneg := problem.current_nonneg index
  rw [balanced.held, balanced.exits index exits, problem.delta_of_exit exits,
    min_eq_left (neg_nonpos.mpr nonneg), add_zero, add_neg_cancel]

end Problem

/-- What an order adds to a holding. -/
def PlannedOrder.signed (order : PlannedOrder) : ℚ :=
  match order.side with
  | .buy => order.qty
  | .sell => -order.qty

/-- The holdings after orders. -/
def afterOrders (orders : List PlannedOrder) (held : String → ℚ) : String → ℚ :=
  orders.foldl (fun held order =>
    Function.update held order.ticker (held order.ticker + order.signed)) held

theorem afterOrders_eq (orders : List PlannedOrder) (held : String → ℚ) (name : String) :
    afterOrders orders held name =
      held name + ((orders.filter (·.ticker = name)).map PlannedOrder.signed).sum := by
  induction orders generalizing held with
  | nil => exact (add_zero _).symm
  | cons order rest ih =>
    rw [afterOrders, List.foldl_cons]
    refine (ih _).trans ?_
    rcases eq_or_ne order.ticker name with rfl | apart
    · rw [Function.update_self, List.filter_cons_of_pos (by simp), List.map_cons, List.sum_cons,
        add_assoc]
    · rw [Function.update_of_ne apart.symm, List.filter_cons_of_neg (by simpa using apart)]

theorem sum_filterMap {ι ω : Type*} (find : ι → Option ω) (keep : ω → Bool) (amount : ω → ℚ)
    (elements : List ι) :
    (((elements.filterMap find).filter keep).map amount).sum =
      (elements.map fun element => ((find element).filter keep).elim 0 amount).sum := by
  induction elements with
  | nil => rfl
  | cons element rest ih =>
    rw [List.map_cons, List.sum_cons, ← ih]
    cases found : find element with
    | none => simp only [List.filterMap_cons_none found, Option.filter_none, Option.elim_none,
        zero_add]
    | some value =>
      rw [List.filterMap_cons_some found]
      cases kept : keep value with
      | true => simp [Option.filter, kept]
      | false => simp [Option.filter, kept]

namespace Problem

variable {problem : Problem n} {plan : Plan n}

theorem names_injective : Function.Injective problem.names := by
  intro one two same
  induction one using Fin.lastCases with
  | last =>
    induction two using Fin.lastCases with
    | last => rfl
    | cast other => exact absurd (same.symm.trans problem.spyLast) (problem.spyApart other)
  | cast stock =>
    induction two using Fin.lastCases with
    | last => exact absurd (same.trans problem.spyLast) (problem.spyApart stock)
    | cast other => rw [problem.ordered.injective same]

/-- An order says by how much the holding of its name changes. -/
theorem order_some {index : Fin (n + 1)} {order : PlannedOrder}
    (found : problem.order plan index = some order) :
    order.ticker = problem.names index ∧ order.signed = problem.change plan index ∧
      1 / 10 ^ 12 ≤ |problem.change plan index| ∧
      (order.side = .buy → order.qty = problem.change plan index) := by
  unfold Problem.order at found
  dsimp only at found
  split at found
  · cases found
  rename_i moved
  cases found
  refine ⟨rfl, ?_, not_lt.mp moved, ?_⟩
  · unfold PlannedOrder.signed
    dsimp only
    split_ifs with up
    · exact abs_of_pos up
    · rw [abs_of_nonpos (not_lt.mp up), neg_neg]
  · intro buys
    dsimp only at buys ⊢
    split_ifs at buys with up
    exact abs_of_pos up

theorem order_none {index : Fin (n + 1)} (missing : problem.order plan index = none) :
    |problem.change plan index| < 1 / 10 ^ 12 := by
  unfold Problem.order at missing
  dsimp only at missing
  split at missing
  · assumption
  · cases missing

/-- The orders bring a holding to what is projected, up to a change that has no order. -/
theorem afterOrders_orders (held : String → ℚ) (index : Fin (n + 1)) :
    afterOrders (problem.orders plan) held (problem.names index) =
      held (problem.names index) +
        if |problem.change plan index| < 1 / 10 ^ 12 then 0 else problem.change plan index := by
  have sorted : (problem.orders plan).Perm
      ((List.finRange (n + 1)).filterMap (problem.order plan)) := List.perm_insertionSort _ _
  rw [afterOrders_eq, ((sorted.filter _).map _).sum_eq, sum_filterMap, ← Fin.sum_univ_def,
    Finset.sum_eq_single index]
  · congr 1
    cases found : problem.order plan index with
    | none => rw [if_pos (order_none found), Option.filter_none, Option.elim_none]
    | some order =>
      obtain ⟨ticker, signed, moved, -⟩ := order_some found
      rw [if_neg (not_lt.mpr moved), Option.filter_some, if_pos (by simpa using ticker),
        Option.elim_some, signed]
  · intro other _ apart
    cases found : problem.order plan other with
    | none => rw [Option.filter_none, Option.elim_none]
    | some order =>
      have ticker := (order_some found).1
      have differs : order.ticker ≠ problem.names index := fun same =>
        apart (names_injective (ticker.symm.trans same))
      rw [Option.filter_some, if_neg (by simpa using differs), Option.elim_none]
  · intro missing
    exact absurd (Finset.mem_univ index) missing

/-- A bought quantity is whole, or the holding that it leads to is. -/
theorem Balanced.orders_whole (balanced : problem.Balanced plan) {order : PlannedOrder}
    (listed : order ∈ problem.orders plan) (buys : order.side = .buy) :
    ∃ index, order.ticker = problem.names index ∧
      (Whole order.qty ∨ Whole (problem.current index + order.qty)) := by
  have member := (List.perm_insertionSort _ _).mem_iff.mp listed
  obtain ⟨index, -, found⟩ := List.mem_filterMap.mp member
  obtain ⟨ticker, -, -, bought⟩ := order_some found
  refine ⟨index, ticker, ?_⟩
  rw [bought buys]
  have whole := balanced.whole index
  unfold Problem.change at whole ⊢
  rw [add_sub_cancel]
  exact whole

end Problem

section Results

variable {normal : String → String} {input : PlanInput}

theorem accept_ok {problem : Problem input.count} (accepted : accept normal input = .ok problem) :
    ∃ constraints listed continuous positive exits,
      problem = input.problem constraints listed continuous positive exits := by
  unfold accept at accepted
  split at accepted
  · split at accepted
    · split at accepted
      · cases accepted
      split at accepted
      · cases accepted
      split at accepted
      · split at accepted
        · split at accepted
          · cases accepted
          obtain ⟨seed, -, rfl⟩ := map_ok.mp accepted
          exact ⟨_, _, _, _, _, rfl⟩
        · cases accepted
      · cases accepted
    · cases accepted
  · cases accepted

theorem names_eq (input : PlanInput) :
    input.names = (List.finRange (input.count + 1)).map input.name := by
  rw [← List.ofFn_eq_map, List.ofFn_succ', PlanInput.name_last, List.concat_eq_append]
  simp only [PlanInput.name_castSucc]
  change input.tickers ++ ["SPY"] = List.ofFn input.tickers.get ++ ["SPY"]
  rw [List.ofFn_get]

/-- What a planned result promises of its quantities, its cash and its orders. -/
structure SelfFinanced (input : PlanInput) (quantities : List (String × ℚ)) (cash : ℚ)
    (orders : List PlannedOrder) : Prop where
  names : quantities.map Prod.fst = input.names
  cash_nonneg : 0 ≤ cash
  neverOversold : ∀ row ∈ quantities, 0 ≤ row.2
  balance : cash + (quantities.map fun row => row.2 * input.price row.1).sum =
    input.cash + (input.names.map fun name => input.current name * input.price name).sum
  exited : ∀ row ∈ input.mandatoryExits.exitReasons, (row.1, 0) ∈ quantities
  whole : ∀ order ∈ orders, order.side = .buy →
    Whole order.qty ∨ Whole (input.current order.ticker + order.qty)
  reached : ∀ row ∈ quantities, afterOrders orders input.current row.1 = row.2 ∨
    afterOrders orders input.current row.1 = input.current row.1 ∧
      |row.2 - input.current row.1| < 1 / 10 ^ 12
  reachedWhole : ∀ row ∈ quantities, Whole (input.current row.1) →
    afterOrders orders input.current row.1 = row.2

theorem Problem.Balanced.selfFinanced {constraints : Constraints input.count}
    {listed : input.Listed} {continuous : input.Continuous} {positive : input.Positive}
    {exits : input.Exits} {plan : Plan input.count}
    (balanced : (input.problem constraints listed continuous positive exits).Balanced plan) :
    SelfFinanced input ((List.finRange (input.count + 1)).map fun index =>
        (input.name index, plan.projected index)) plan.cash
      ((input.problem constraints listed continuous positive exits).orders plan) := by
  set problem := input.problem constraints listed continuous positive exits with same
  have reaches (index : Fin (input.count + 1)) :
      afterOrders (problem.orders plan) input.current (input.name index) =
        input.current (input.name index) +
          if |problem.change plan index| < 1 / 10 ^ 12 then 0 else problem.change plan index :=
    Problem.afterOrders_orders input.current index
  have changed (index : Fin (input.count + 1)) :
      problem.change plan index = plan.projected index - input.current (input.name index) := rfl
  constructor
  · rw [names_eq, List.map_map]
    rfl
  · exact balanced.cash_nonneg
  · intro row member
    obtain ⟨index, -, rfl⟩ := List.mem_map.mp member
    exact balanced.projected_nonneg index
  · rw [names_eq, List.map_map, List.map_map, ← Fin.sum_univ_def, ← Fin.sum_univ_def]
    exact balanced.balance
  · intro row member
    obtain ⟨index, ticker⟩ := List.get_of_mem (exits row member)
    have named : input.name index.castSucc = row.1 := (input.name_castSucc index).trans ticker
    have leaves : (problem.exitReason index.castSucc).isSome = true := by
      apply List.lookup_isSome_iff.mpr
      exact ⟨row, member, beq_iff_eq.mpr named⟩
    apply List.mem_map.mpr
    exact ⟨index.castSucc, List.mem_finRange _, Prod.ext named (balanced.exited leaves)⟩
  · intro order member buys
    obtain ⟨index, ticker, whole⟩ := balanced.orders_whole member buys
    rw [ticker]
    exact whole
  · intro row member
    obtain ⟨index, -, rfl⟩ := List.mem_map.mp member
    dsimp only
    rw [reaches index]
    split_ifs with small
    · right
      exact ⟨add_zero _, small⟩
    · left
      rw [changed, add_sub_cancel]
  · intro row member held
    obtain ⟨index, -, rfl⟩ := List.mem_map.mp member
    dsimp only at held ⊢
    rw [reaches index]
    split_ifs with small
    · -- a whole change of almost nothing is none
      have whole : Whole (problem.change plan index) := by
        rcases balanced.whole index with moved | projected
        · exact moved
        · exact projected.sub held
      have none_ := whole.eq_zero (small.trans (by norm_num))
      rw [changed] at none_
      linarith
    · rw [changed, add_sub_cancel]

/-- A planned result finances itself and never sells more than is held. -/
theorem planWholeShareOrders_selfFinanced {result : PlanResult}
    (returned : planWholeShareOrders normal input = .ok result)
    (planned : result.status = .planned) :
    ∃ quantities cash, result.projectedQuantities = some quantities ∧
      result.projectedCash = some cash ∧ SelfFinanced input quantities cash result.orders := by
  obtain ⟨problem, accepted, rfl⟩ := map_ok.mp returned
  obtain ⟨constraints, listed, continuous, positive, exits, rfl⟩ := accept_ok accepted
  set problem := input.problem constraints listed continuous positive exits
  unfold Problem.result at planned ⊢
  dsimp only at planned ⊢
  split_ifs at planned ⊢
  exact ⟨_, _, rfl, rfl, problem.repaired_balanced.selfFinanced⟩

end Results

/-- A holding with half a share, and one that its target hardly changes. -/
def fractions : PlanInput where
  tickers := ["AAA", "BBB"]
  targetWeights := [95 / 1000, 90 / 1000, 815 / 1000]
  currentQuantities := quotes [("AAA", 1 / 2), ("BBB", 9 + 1 / 10 ^ 13)]
  operationalPrices := quotes [("AAA", 100), ("BBB", 100), ("SPY", 100)]
  cash := 9050
  equity := 10000
  beta := [1, 1]
  sectors := [some "energy", some "health"]
  alpha := [1, 2]
  entryAtr := quotes [("AAA", 2), ("BBB", 2)]
  mandatoryExits := .none_

def fractionsPlanned : PlanResult where
  status := .planned
  orders := [⟨"AAA", .buy, 17 / 2, "rebalance", 95 / 1000, some 2⟩,
    ⟨"SPY", .buy, 82, "spy_financing", 815 / 1000, none⟩]
  projectedQuantities := some [("AAA", 9), ("BBB", 9), ("SPY", 82)]
  projectedCash := some (1 / 10 ^ 11)
  cashWeight := some (1 / 10 ^ 15)
  portfolioBeta := some 1
  sectorStatus := .available
  sectorCoverage := 1

theorem fractions_planned : planWholeShareOrders id fractions = .ok fractionsPlanned := by
  decide +kernel

theorem fractions_selfFinanced : ∃ quantities cash,
    fractionsPlanned.projectedQuantities = some quantities ∧
      fractionsPlanned.projectedCash = some cash ∧
        SelfFinanced fractions quantities cash fractionsPlanned.orders :=
  planWholeShareOrders_selfFinanced fractions_planned rfl

/-- Half a share more than eight is bought, and a sell of almost nothing is left out. -/
theorem fractions_bought : ∃ result quantities,
    planWholeShareOrders id fractions = .ok result ∧ result.status = .planned ∧
      result.projectedQuantities = some quantities ∧
      (∃ order ∈ result.orders, order.side = .buy ∧ ¬ Whole order.qty) ∧
      ∃ row ∈ quantities, afterOrders result.orders fractions.current row.1 ≠ row.2 := by
  refine ⟨fractionsPlanned, [("AAA", 9), ("BBB", 9), ("SPY", 82)], fractions_planned, rfl, rfl,
    ?_, ?_⟩
  · refine ⟨_, List.mem_cons_self, rfl, ?_⟩
    decide +kernel
  · refine ⟨("BBB", 9), by decide, ?_⟩
    decide +kernel

end TradingEngine.Planner
