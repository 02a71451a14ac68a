import TradingEngine.LeagueCompletion
import TradingEngine.SharedBudgets

/-!
# Buys of one book and the ids of their orders

The buys that a book can execute share its cash. At the scale that was found each is priced,
charged and then applied by id, so the scaled legs are requests served in turn from one
budget. What is bought of a ticker does not depend on which order has which id when the legs
that the cash could serve fit into it together, or there is at most one of them. For buys of
different tickers in a step that returns it depends on nothing else.

The scale itself is the same for every assignment of the ids.
-/

namespace TradingEngine.LeagueFills

open KeyedTables OrderTypes Ledger Costs Fills Runs SharedBudgets

/-- A scaled leg with its price and its fee. -/
structure Leg where
  qty : ℚ
  px : ℚ
  fee : ℚ
  positive : 0 < qty
  priced : 0 < px
  charged : 0 ≤ fee

namespace Leg

variable (leg : Leg) {cash less more : ℚ}

/-- What the ledger's clamp lets a leg buy. -/
def affordable (cash : ℚ) : ℚ := max (cash - leg.fee) 0 / leg.px * (1 - dust)

/-- The quantity that the ledger applies of a leg. -/
def grant (cash : ℚ) : ℚ :=
  if leg.qty * leg.px ≤ cash - leg.fee then leg.qty
  else if leg.affordable cash * leg.px < minFillUsd then 0
  else leg.affordable cash

def spent (cash : ℚ) : ℚ :=
  if 0 < leg.grant cash then leg.grant cash * leg.px + leg.fee else 0

theorem affordable_nonneg (cash : ℚ) : 0 ≤ leg.affordable cash :=
  mul_nonneg (div_nonneg (le_max_right _ _) leg.priced.le) (by norm_num [dust])

theorem affordable_mono (within : less ≤ more) : leg.affordable less ≤ leg.affordable more := by
  have share : (0 : ℚ) ≤ 1 - dust := by norm_num [dust]
  exact mul_le_mul_of_nonneg_right (div_le_div_of_nonneg_right
    (max_le_max (by linarith) le_rfl) leg.priced.le) share

theorem affordable_lt (within : less < more) (funded : 0 < leg.affordable more) :
    leg.affordable less < leg.affordable more := by
  have share : (0 : ℚ) < 1 - dust := by norm_num [dust]
  have available : 0 < more - leg.fee := by
    by_contra none
    rw [affordable, max_eq_right (not_lt.mp none), zero_div, zero_mul] at funded
    exact lt_irrefl 0 funded
  refine mul_lt_mul_of_pos_right (div_lt_div_of_pos_right ?_ leg.priced) share
  rw [max_eq_left available.le]
  exact max_lt (by linarith) available

/-- A leg that is cut buys less than it asked for. -/
theorem affordable_short (short : ¬ leg.qty * leg.px ≤ cash - leg.fee) :
    leg.affordable cash < leg.qty := by
  have worth := mul_pos leg.positive leg.priced
  have available : max (cash - leg.fee) 0 / leg.px < leg.qty := by
    rw [div_lt_iff₀ leg.priced]
    exact max_lt (not_le.mp short) worth
  have nonneg : 0 ≤ max (cash - leg.fee) 0 / leg.px :=
    div_nonneg (le_max_right _ _) leg.priced.le
  have cut : leg.affordable cash ≤ max (cash - leg.fee) 0 / leg.px :=
    mul_le_of_le_one_right nonneg (by norm_num [dust])
  exact cut.trans_lt available

theorem grant_nonneg (cash : ℚ) : 0 ≤ leg.grant cash := by
  unfold grant
  split
  · exact leg.positive.le
  · split
    · exact le_rfl
    · exact leg.affordable_nonneg cash

theorem grant_le_affordable (short : ¬ leg.qty * leg.px ≤ cash - leg.fee) :
    leg.grant cash ≤ leg.affordable cash := by
  rw [grant, if_neg short]
  split
  · exact leg.affordable_nonneg cash
  · exact le_rfl

theorem grant_short (short : ¬ leg.qty * leg.px ≤ cash - leg.fee) : leg.grant cash < leg.qty :=
  (leg.grant_le_affordable short).trans_lt (leg.affordable_short short)

theorem grant_le (cash : ℚ) : leg.grant cash ≤ leg.qty := by
  by_cases covered : leg.qty * leg.px ≤ cash - leg.fee
  · exact (if_pos covered).le
  · exact (leg.grant_short covered).le

theorem grant_mono (within : less ≤ more) : leg.grant less ≤ leg.grant more := by
  by_cases covered : leg.qty * leg.px ≤ more - leg.fee
  · have whole : leg.grant more = leg.qty := if_pos covered
    rw [whole]
    exact leg.grant_le less
  · have short : ¬ leg.qty * leg.px ≤ less - leg.fee := fun enough => covered (by linarith)
    have cut := leg.affordable_mono within
    rw [grant, grant, if_neg covered, if_neg short]
    split
    · split
      · exact le_rfl
      · exact leg.affordable_nonneg more
    · rename_i enough
      have worth := mul_le_mul_of_nonneg_right cut leg.priced.le
      rw [if_neg (fun dust => enough (worth.trans_lt dust))]
      exact cut

/-- Of a leg that is cut, less cash buys strictly less. -/
theorem grant_cut (granted : 0 < leg.grant more) (within : less < more)
    (short : ¬ leg.qty * leg.px ≤ more - leg.fee) : leg.grant less < leg.grant more := by
  have still : ¬ leg.qty * leg.px ≤ less - leg.fee := fun enough => short (by linarith)
  have cut : leg.grant more = leg.affordable more := by
    rw [grant, if_neg short] at granted ⊢
    split at granted
    · exact absurd granted (lt_irrefl 0)
    · rename_i enough
      rw [if_neg enough]
  rw [cut] at granted ⊢
  exact (leg.grant_le_affordable still).trans_lt (leg.affordable_lt within granted)

end Leg

/-- One buy in its turn: its ticker, and its leg unless it was dropped. -/
structure Request where
  ticker : Ticker
  leg : Option Leg

namespace Request

def need (request : Request) : ℚ :=
  request.leg.elim 0 fun leg => leg.qty * leg.px + leg.fee

def full (request : Request) : ℚ := request.leg.elim 0 Leg.qty

def grant (cash : ℚ) (request : Request) : ℚ := request.leg.elim 0 fun leg => leg.grant cash

def spent (cash : ℚ) (request : Request) : ℚ := request.leg.elim 0 fun leg => leg.spent cash

end Request

/-- The ledger's clamp as a rule for requests. -/
def buyRule : Rule Request ℚ where
  need := Request.need
  full := Request.full
  grant := Request.grant
  spent := Request.spent
  grant_nonneg := by
    rintro cash ⟨ticker, _ | leg⟩
    · exact le_rfl
    · exact leg.grant_nonneg cash
  grant_mono := by
    rintro less more ⟨ticker, _ | leg⟩ within
    · exact le_rfl
    · exact leg.grant_mono within
  grant_covered := by
    rintro cash ⟨ticker, _ | leg⟩ enough
    · rfl
    · exact if_pos (le_sub_iff_add_le.mpr enough)
  spent_covered := by
    rintro cash ⟨ticker, _ | leg⟩ enough
    · rfl
    · have covered : leg.grant cash = leg.qty := if_pos (le_sub_iff_add_le.mpr enough)
      change leg.spent cash = leg.qty * leg.px + leg.fee
      rw [Leg.spent, covered, if_pos leg.positive]
  grant_short := by
    rintro cash ⟨ticker, _ | leg⟩ positive short
    · exact absurd positive (lt_irrefl 0)
    · exact leg.grant_short fun enough => not_le.mpr short (le_sub_iff_add_le.mp enough)
  grant_cut := by
    rintro less more ⟨ticker, _ | leg⟩ granted within short
    · exact absurd granted (lt_irrefl 0)
    · exact leg.grant_cut granted within fun enough =>
        not_le.mpr short (le_sub_iff_add_le.mp enough)
  spent_nonneg := by
    rintro cash ⟨ticker, _ | leg⟩
    · exact le_rfl
    · change 0 ≤ leg.spent cash
      unfold Leg.spent
      split
      · rename_i granted
        have paid := mul_pos granted leg.priced
        linarith [leg.charged]
      · exact le_rfl
  spent_none := by
    rintro cash ⟨ticker, _ | leg⟩ none
    · rfl
    · exact if_neg (by rw [show leg.grant cash = 0 from none]; exact lt_irrefl 0)
  spent_some := by
    rintro cash ⟨ticker, _ | leg⟩ granted
    · exact absurd granted (lt_irrefl 0)
    · change 0 < leg.spent cash
      have granted : 0 < leg.grant cash := granted
      rw [Leg.spent, if_pos granted]
      have paid := mul_pos granted leg.priced
      linarith [leg.charged]

/-- What each request is granted: from the cash in turn, or in full on margin. -/
def granted (settings : LedgerSettings) (cash : ℚ) (requests : List Request) :
    List (Request × ℚ) :=
  if settings.accountType = .cashLegacy then serve buyRule cash requests
  else requests.map fun request => (request, request.full)

/-- The request of a candidate at a scale. -/
def requestOf (session : Session) (portfolio : Portfolio) (scale : ℚ) (candidate : Candidate) :
    Request :=
  match legOf session (profileOf portfolio) scale candidate with
  | none => ⟨candidate.order.ticker, none⟩
  | some (qty, terms) =>
    match fillFees session portfolio .buy qty terms.fillPx with
    | .error _ => ⟨candidate.order.ticker, none⟩
    | .ok fees =>
      if sound : 0 < qty ∧ 0 ≤ fees.totalUsd then
        ⟨candidate.order.ticker,
          some ⟨qty, terms.fillPx, fees.totalUsd, sound.1, terms.priced, sound.2⟩⟩
      else ⟨candidate.order.ticker, none⟩

section Buys

variable {session : Session} {portfolio : Portfolio} {scale : ℚ} {candidate : Candidate}

@[simp] theorem requestOf_ticker :
    (requestOf session portfolio scale candidate).ticker = candidate.order.ticker := by
  unfold requestOf
  split
  · rfl
  · split
    · rfl
    · split
      · rfl
      · rfl

/-- A leg that is not dust has a positive quantity. -/
theorem legOf_positive {qty : ℚ} {terms : OpenFill}
    (leg : legOf session (profileOf portfolio) scale candidate = some (qty, terms)) : 0 < qty := by
  unfold legOf at leg
  simp only [Option.bind_eq_some_iff] at leg
  obtain ⟨priced, _, worth⟩ := leg
  split at worth
  · cases worth
  · rename_i enough
    cases worth
    have least : (0 : ℚ) < minFillUsd := by norm_num [minFillUsd]
    exact pos_of_mul_pos_left (least.trans_le (not_lt.mp enough)) terms.priced.le

theorem requestOf_leg {qty : ℚ} {terms : OpenFill} {fees : Fees}
    (leg : legOf session (profileOf portfolio) scale candidate = some (qty, terms))
    (charged : fillFees session portfolio .buy qty terms.fillPx = .ok fees) :
    ∃ priced : Leg, (requestOf session portfolio scale candidate).leg = some priced ∧
      priced.qty = qty ∧ priced.px = terms.fillPx ∧ priced.fee = fees.totalUsd := by
  have sound : 0 < qty ∧ 0 ≤ fees.totalUsd :=
    ⟨legOf_positive leg, charge_nonneg (fillFees_charge.mp charged) _ (by simp [Fees.components])⟩
  unfold requestOf
  simp only [leg, charged, dif_pos sound]
  exact ⟨_, rfl, rfl, rfl, rfl⟩

theorem requestOf_dropped
    (leg : legOf session (profileOf portfolio) scale candidate = none) :
    (requestOf session portfolio scale candidate).leg = none := by
  unfold requestOf
  rw [leg]

/-- The ledger grants a buy what the rule does, and the cash pays for it. -/
theorem applyFill_buy {settings : LedgerSettings} {times : FillTimes} {book : Book} {fill : Fill}
    {fees : Option Fees} {applied : Applied} (leg : Leg) (league : settings.engine = .league)
    (long : LongBook book) (buy : fill.side = .buy) (single : fill.multiplier = 1)
    (sized : leg.qty = fill.qty) (priced : leg.px = fill.px) (fee : leg.fee = feeTotal fees)
    (charged : ∀ known ∈ fees, ∀ component ∈ known.components, 0 ≤ component)
    (filled : applyFill settings times book fill fees = .ok applied) :
    if settings.accountType = .cashLegacy then
      applied.qty = leg.grant book.cash ∧ applied.book.cash = book.cash - leg.spent book.cash
    else applied.qty = leg.qty := by
  have positive : 0 < fill.qty ∧ 0 < fill.px ∧ 0 < fill.multiplier :=
    ⟨sized ▸ leg.positive, priced ▸ leg.priced, single ▸ one_pos⟩
  have trades := fillQty_long league long (.inl buy) positive charged
  simp only [tradedQty, buy, not_lt.mpr (long.held fill.ticker), if_false, single, mul_one, ← sized,
    ← priced, ← fee] at trades
  have clamp : max (book.cash - leg.fee) 0 / leg.px * (1 - dust) = leg.affordable book.cash := rfl
  rw [clamp] at trades
  by_cases legacy : settings.accountType = .cashLegacy
  · rw [if_pos legacy]
    have size : fillQty settings book fill fees =
        .ok (if 0 < leg.grant book.cash then some (leg.grant book.cash) else none) := by
      rw [trades]
      unfold Leg.grant
      by_cases covered : leg.qty * leg.px ≤ book.cash - leg.fee
      · simp [not_lt.mpr covered, covered, leg.positive]
      · simp only [not_le.mp covered, legacy, and_self, if_true, covered, if_false]
        by_cases small : leg.affordable book.cash * leg.px < minFillUsd
        · simp only [small, if_true, lt_irrefl, if_false]
        · have some : 0 < leg.affordable book.cash := by
            have least : (0 : ℚ) < minFillUsd := by norm_num [minFillUsd]
            exact pos_of_mul_pos_left (least.trans_le (not_lt.mp small)) leg.priced.le
          simp only [small, if_false, some, if_true]
    rcases applyFill_cases filled with ⟨none, rfl⟩ | ⟨qty, lots, days, closes, some, _, rfl⟩
    · rw [size] at none
      split at none
      · cases none
      · rename_i nothing
        have zero : leg.grant book.cash = 0 :=
          le_antisymm (not_lt.mp nothing) (leg.grant_nonneg _)
        simp [zero, Leg.spent]
    · rw [size] at some
      split at some
      · rename_i granted
        cases some
        refine ⟨rfl, ?_⟩
        simp only [filledBook, buy, Side.sign, single, Leg.spent, if_pos granted, ← priced, ← fee]
        ring
      · cases some
  · rw [if_neg legacy]
    simp only [legacy, false_and, if_false] at trades
    rcases applyFill_cases filled with ⟨none, _⟩ | ⟨qty, lots, days, closes, some, _, rfl⟩
    · rw [trades] at none
      cases none
    · rw [trades] at some
      cases some
      rfl

/-- What the turn of one buy adds to what is bought, and takes from the cash. -/
structure Served (session : Session) (portfolio : Portfolio) (scale : ℚ) (store next : Store)
    (candidate : Candidate) (book : Book) : Prop where
  cash : portfolio.settings.accountType = .cashLegacy → book.cash = portfolio.book.cash -
    buyRule.spent portfolio.book.cash (requestOf session portfolio scale candidate)
  bought : ∀ portfolioId ticker, boughtQty next session.day portfolioId ticker =
    boughtQty store session.day portfolioId ticker +
      if candidate.order.portfolioId = portfolioId ∧ candidate.order.ticker = ticker then
        (if portfolio.settings.accountType = .cashLegacy then
          buyRule.grant portfolio.book.cash (requestOf session portfolio scale candidate)
        else (requestOf session portfolio scale candidate).full)
      else 0

theorem BuyTurn.served {store next : Store} {book : Book} {portfolioId : String}
    (turn : BuyTurn session portfolio scale store next candidate book)
    (trading : Trading portfolio) (buyable : Buyable session store portfolioId candidate) :
    Served session portfolio scale store next candidate book := by
  cases leg : legOf session (profileOf portfolio) scale candidate with
  | none =>
    obtain ⟨same, fills⟩ := turn.dropped leg
    have dropped := requestOf_dropped leg
    constructor
    · intro _
      simp [buyRule, Request.spent, dropped, same]
    · intro owner ticker
      simp only [buyRule, Request.grant, Request.full, dropped, Option.elim_none, ite_self,
        add_zero, boughtQty, fills]
  | some priced =>
    obtain ⟨qty, terms⟩ := priced
    obtain ⟨before, fees, applied, recorded, fills, rfl⟩ := turn.recorded qty terms leg
    have charged := recorded.charged
    rw [buyable.buy] at charged
    obtain ⟨request, asked, sized, price, fee⟩ := requestOf_leg leg charged
    have applies := applyFill_buy request trading.league trading.long buyable.buy rfl
      sized price (fee.trans (keptFees_total recorded.charged).symm)
      (keptFees_nonneg recorded.charged) recorded.filled
    have missing : before.fills.lookup candidate.id = none := by
      rw [fills]
      exact buyable.unfilled
    constructor
    · intro legacy
      rw [if_pos legacy] at applies
      simp only [buyRule, Request.spent, asked, Option.elim_some, applies.2]
    · intro owner ticker
      rw [recorded.boughtQty missing]
      have same : boughtQty before session.day owner ticker =
          boughtQty store session.day owner ticker := by
        simp only [boughtQty, fills]
      rw [same]
      by_cases legacy : portfolio.settings.accountType = .cashLegacy
      · rw [if_pos legacy] at applies
        simp only [buyable.buy, legacy, if_true, and_true, buyRule, Request.grant, asked,
          Option.elim_some, applies.1]
      · rw [if_neg legacy] at applies
        simp only [buyable.buy, legacy, if_false, and_true, Request.full, asked,
          Option.elim_some, applies]

/-- The buys of a book are granted as its requests are. -/
theorem buys_granted {candidates : List Candidate} {store after : Store} {portfolioId : String}
    (distinct : (candidates.map Candidate.id).Nodup)
    (found : store.portfolios.lookup portfolioId = some portfolio) (trading : Trading portfolio)
    (buyable : ∀ candidate ∈ candidates, Buyable session store portfolioId candidate)
    (runs : candidates.foldlM (fillBuy session (profileOf portfolio) scale) store = .ok after)
    (owner : String) (ticker : Ticker) :
    boughtQty after session.day owner ticker = boughtQty store session.day owner ticker +
      if portfolioId = owner then
        received Request.ticker (granted portfolio.settings portfolio.book.cash
          (candidates.map (requestOf session portfolio scale))) ticker
      else 0 := by
  induction candidates generalizing store portfolio with
  | nil =>
    cases runs
    simp [granted, serve, received]
  | cons candidate rest ih =>
    rw [List.map_cons, List.nodup_cons] at distinct
    have ready := buyable candidate List.mem_cons_self
    obtain ⟨next, stepped, runs⟩ := foldlM_cons_ok.mp runs
    obtain ⟨other, book, same, turn⟩ := fillBuy_turn found trading ready scale
    rw [stepped] at same
    cases same
    have served := turn.served trading ready
    have own := ready.own
    subst own
    have later (other : Candidate) (listed : other ∈ rest) :
        Buyable session next candidate.order.portfolioId other := by
      refine turn.buyable ?_ (buyable other (List.mem_cons_of_mem _ listed))
      intro same
      exact distinct.1 (same ▸ List.mem_map_of_mem listed)
    have rests := ih distinct.2 turn.stored ⟨trading.league, turn.long⟩ later runs
    rw [rests, served.bought owner ticker, add_assoc]
    congr 1
    by_cases mine : candidate.order.portfolioId = owner
    · simp only [mine, if_true, true_and, List.map_cons, granted]
      by_cases legacy : portfolio.settings.accountType = .cashLegacy
      · simp only [legacy, if_true, serve, received_cons, requestOf_ticker]
        rw [served.cash legacy]
        rfl
      · simp only [legacy, if_false, received_cons, requestOf_ticker]
        rfl
    · simp [mine]

end Buys

section Groups

variable {session : Session} {store after : Store}

theorem fillBuys_granted {group : String × List Candidate}
    (ready : GroupReady session store group) (returned : fillBuys session store group = .ok after) :
    ∃ portfolio scale, store.portfolios.lookup group.1 = some portfolio ∧
      buyScale session portfolio group.2 portfolio.book.cash = .ok scale ∧
      ∀ owner ticker, boughtQty after session.day owner ticker =
        boughtQty store session.day owner ticker +
          if group.1 = owner then
            received Request.ticker (granted portfolio.settings portfolio.book.cash
              (group.2.map (requestOf session portfolio scale))) ticker
          else 0 := by
  obtain ⟨portfolio, found, trading⟩ := ready.portfolio
  unfold fillBuys at returned
  rw [found] at returned
  dsimp only at returned
  split at returned
  · cases returned
  · rename_i scale scaled
    exact ⟨portfolio, scale, found, scaled,
      buys_granted ready.distinct found trading ready.buyable returned⟩

/-- What is bought for a book changes in the turn of its own group only. -/
theorem groups_bought {groups : List (String × List Candidate)} (apart : Apart groups)
    (ready : ∀ group ∈ groups, GroupReady session store group)
    (returned : groups.foldlM (fillBuys session) store = .ok after) (owner : String) :
    (owner ∉ groups.map Prod.fst → ∀ ticker,
      boughtQty after session.day owner ticker = boughtQty store session.day owner ticker) ∧
    ∀ group ∈ groups, group.1 = owner →
      ∃ portfolio scale, store.portfolios.lookup owner = some portfolio ∧
        buyScale session portfolio group.2 portfolio.book.cash = .ok scale ∧
        ∀ ticker, boughtQty after session.day owner ticker =
          boughtQty store session.day owner ticker +
            received Request.ticker (granted portfolio.settings portfolio.book.cash
              (group.2.map (requestOf session portfolio scale))) ticker := by
  induction groups generalizing store with
  | nil =>
    cases returned
    exact ⟨fun _ _ => rfl, fun _ listed => (List.not_mem_nil listed).elim⟩
  | cons group rest ih =>
    obtain ⟨middle, stepped, runs⟩ := foldlM_cons_ok.mp returned
    have first := ready group List.mem_cons_self
    have bought := fillBuys_bought first stepped
    obtain ⟨portfolio, scale, found, scaled, grows⟩ := fillBuys_granted first stepped
    obtain ⟨unlisted, listed⟩ := ih apart.tail (fun other inside =>
      (bought.others session apart inside).1 (ready other (List.mem_cons_of_mem _ inside))) runs
    have once := (List.nodup_cons.mp apart.books).1
    constructor
    · intro missing ticker
      rw [List.map_cons, List.mem_cons, not_or] at missing
      rw [unlisted missing.2, grows owner ticker, if_neg (Ne.symm missing.1), add_zero]
    · intro other inside own
      rcases List.mem_cons.mp inside with rfl | later
      · subst own
        refine ⟨portfolio, scale, found, scaled, ?_⟩
        intro ticker
        rw [unlisted once, grows, if_pos rfl]
      · obtain ⟨portfolio', scale', found', scaled', grows'⟩ := listed other later own
        have differs : owner ≠ group.1 := by
          rintro rfl
          exact once (own ▸ List.mem_map_of_mem later)
        rw [bought.portfolios _ differs] at found'
        refine ⟨portfolio', scale', found', scaled', ?_⟩
        intro ticker
        rw [grows' ticker, grows owner ticker, if_neg (Ne.symm differs), add_zero]

end Groups

/-- The orders under permuted ids. -/
def relabel (labels : Equiv.Perm OrderId) (orders : Table OrderId Order) : Table OrderId Order where
  entries := orders.entries.map fun row => ⟨labels row.1, row.2⟩
  nodupKeys := by
    have keys : (orders.entries.map fun row : Σ _ : OrderId, Order =>
        (⟨labels row.1, row.2⟩ : Σ _ : OrderId, Order)).keys = orders.entries.keys.map labels := by
      simp [List.keys, Function.comp_def]
    rw [List.NodupKeys, keys]
    exact orders.nodupKeys.map labels.injective

def relabelled (labels : Equiv.Perm OrderId) (store : Store) : Store :=
  { store with orders := relabel labels store.orders }

/-- The executable buys of a book, by id. -/
def buysOf (session : Session) (store : Store) (portfolioId : String) : List Candidate :=
  (((dueOrders store session.day).filterMap (collected session store)).filter fun entry =>
    decide (entry.1 = portfolioId)).map Prod.snd

/-- A permutation of ids among the executable buys of a book. -/
def Exchanges (session : Session) (store : Store) (portfolioId : String)
    (labels : Equiv.Perm OrderId) : Prop :=
  ∀ id, labels id ≠ id → id ∈ (buysOf session store portfolioId).map Candidate.id

section Relabel

variable {session : Session} {store : Store} {portfolioId : String} {labels : Equiv.Perm OrderId}

theorem lookup_relabel (labels : Equiv.Perm OrderId) (orders : Table OrderId Order) (id : OrderId) :
    (relabel labels orders).lookup id = orders.lookup (labels.symm id) := by
  have found (order : Order) :
      (relabel labels orders).lookup id = some order ↔
        orders.lookup (labels.symm id) = some order := by
    constructor
    · intro stored
      obtain ⟨row, listed, same⟩ := List.mem_map.mp (mem_of_lookup stored)
      cases same
      rw [Equiv.symm_apply_apply]
      exact lookup_of_mem listed
    · intro stored
      have listed : (⟨id, order⟩ : Σ _ : OrderId, Order) ∈ (relabel labels orders).entries :=
        List.mem_map.mpr ⟨_, mem_of_lookup stored, by rw [Equiv.apply_symm_apply]⟩
      exact lookup_of_mem listed
  exact Option.ext found

theorem mem_buysOf {candidate : Candidate} :
    candidate ∈ buysOf session store portfolioId ↔
      ∃ portfolio, store.portfolios.lookup portfolioId = some portfolio ∧
        (candidate.id, candidate.order) ∈ dueOrders store session.day ∧
        candidate.order.portfolioId = portfolioId ∧
        executable session portfolio (candidate.id, candidate.order) = some candidate := by
  have listed : candidate ∈ buysOf session store portfolioId ↔ (portfolioId, candidate) ∈
      (dueOrders store session.day).filterMap (collected session store) := by
    simp only [buysOf, List.mem_map, List.mem_filter, decide_eq_true_eq, Prod.exists]
    constructor
    · rintro ⟨other, found, ⟨inside, rfl⟩, rfl⟩
      exact inside
    · intro inside
      exact ⟨portfolioId, candidate, ⟨inside, rfl⟩, rfl⟩
  rw [listed, mem_collected]
  constructor
  · rintro ⟨entry, due, portfolio, found, buys, own⟩
    dsimp only at own buys
    obtain ⟨id, order, _, _⟩ := executable_candidate buys
    rw [id, order]
    exact ⟨portfolio, own ▸ found, due, own.symm, buys⟩
  · rintro ⟨portfolio, found, due, own, buys⟩
    exact ⟨_, due, portfolio, by rw [own]; exact found, buys, own.symm⟩

variable {id : OrderId}

theorem mem_due_relabelled {order : Order} :
    (id, order) ∈ dueOrders (relabelled labels store) session.day ↔
      (labels.symm id, order) ∈ dueOrders store session.day := by
  simp only [mem_dueOrders, relabelled, lookup_relabel]

/-- A candidate under another id. -/
def Candidate.renamed (candidate : Candidate) (id : OrderId) : Candidate :=
  { candidate with id := id }

theorem executable_renamed {portfolio : Portfolio} {other : OrderId} {order : Order}
    {candidate : Candidate} (buys : executable session portfolio (id, order) = some candidate) :
    executable session portfolio (other, order) = some (candidate.renamed other) := by
  unfold executable at buys ⊢
  split at buys
  · rename_i valid
    rw [if_pos valid]
    dsimp only at buys ⊢
    split at buys
    · cases buys
      rfl
    · cases buys
  · cases buys

/-- The buys under permuted ids are the buys, each under its new id. -/
theorem mem_buysOf_relabelled {candidate : Candidate} :
    candidate ∈ buysOf session (relabelled labels store) portfolioId ↔
      candidate.renamed (labels.symm candidate.id) ∈ buysOf session store portfolioId := by
  rw [mem_buysOf, mem_buysOf]
  constructor
  · rintro ⟨portfolio, found, due, own, buys⟩
    exact ⟨portfolio, found, mem_due_relabelled.mp due, own, executable_renamed buys⟩
  · rintro ⟨portfolio, found, due, own, buys⟩
    have back : executable session portfolio (candidate.id, candidate.order) =
        some ((candidate.renamed (labels.symm candidate.id)).renamed candidate.id) :=
      executable_renamed buys
    exact ⟨portfolio, found, mem_due_relabelled.mpr due, own, back⟩

theorem Exchanges.inside (exchanges : Exchanges session store portfolioId labels) :
    labels id ∈ (buysOf session store portfolioId).map Candidate.id ↔
      id ∈ (buysOf session store portfolioId).map Candidate.id := by
  by_cases fixed : labels id = id
  · rw [fixed]
  · have moved : labels (labels id) ≠ labels id := fun same => fixed (labels.injective same)
    exact ⟨fun _ => exchanges id fixed, fun _ => exchanges _ moved⟩

theorem Exchanges.inside_symm (exchanges : Exchanges session store portfolioId labels) :
    labels.symm id ∈ (buysOf session store portfolioId).map Candidate.id ↔
      id ∈ (buysOf session store portfolioId).map Candidate.id := by
  rw [← exchanges.inside, Equiv.apply_symm_apply]

theorem Exchanges.pending (exchanges : Exchanges session store portfolioId labels)
    (moved : labels.symm id ≠ id) :
    ∃ order, (id, order) ∈ dueOrders store session.day ∧ order.side = .buy := by
  have listed : id ∈ (buysOf session store portfolioId).map Candidate.id := by
    refine exchanges.inside_symm.mp (exchanges _ ?_)
    rw [Equiv.apply_symm_apply]
    exact moved.symm
  obtain ⟨candidate, inside, rfl⟩ := List.mem_map.mp listed
  obtain ⟨portfolio, _, due, _, buys⟩ := mem_buysOf.mp inside
  exact ⟨candidate.order, due, (executable_candidate buys).2.2.1⟩

theorem Exchanges.sound (exchanges : Exchanges session store portfolioId labels)
    (sound : Sound store) : Sound (relabelled labels store) := by
  constructor
  · exact sound.long
  · intro id order stored pending
    rw [relabelled, lookup_relabel] at stored
    by_cases fixed : labels.symm id = id
    · rw [fixed] at stored
      exact sound.unfilled id order stored pending
    · obtain ⟨own, due, _⟩ := exchanges.pending fixed
      obtain ⟨found, waits, _⟩ := mem_dueOrders.mp due
      exact sound.unfilled id own found waits

theorem netSales_append {portfolio : Portfolio} (sales others : List Order) (held : Ticker → ℚ)
    (none : ∀ order ∈ others, order.side ≠ .sell) :
    netSales session portfolio held (sales ++ others) = netSales session portfolio held sales := by
  induction sales generalizing held with
  | nil =>
    rw [List.nil_append]
    induction others generalizing held with
    | nil => rfl
    | cons order rest ih =>
      have nothing : saleOf session portfolio (held order.ticker) order = ⟨0, 0⟩ := by
        simp [saleOf, none order List.mem_cons_self]
      simp only [netSales, nothing, sub_zero, Function.update_eq_self, zero_add]
      exact ih
        (fun other listed => none other (List.mem_cons_of_mem _ listed)) held
  | cons order rest ih =>
    rw [List.cons_append]
    simp only [netSales, ih]

theorem waiting_relabelled (labels : Equiv.Perm OrderId) (store : Store) (day : Int) :
    waiting (relabelled labels store) day =
      (waiting store day).map fun entry => (labels entry.1, entry.2) := by
  simp only [waiting, relabelled, relabel, List.map_map, List.filter_map]
  rfl

/-- The sales keep their ids, and so their order. -/
theorem Exchanges.sales (exchanges : Exchanges session store portfolioId labels) :
    (waiting (relabelled labels store) session.day).filter
        (fun entry => decide (entry.2.side = .sell)) =
      (waiting store session.day).filter fun entry => decide (entry.2.side = .sell) := by
  rw [waiting_relabelled, List.filter_map]
  refine (List.map_congr_left ?_).trans (List.map_id _)
  intro entry listed
  obtain ⟨waits, sells⟩ := List.mem_filter.mp listed
  have fixed : labels entry.1 = entry.1 := by
    by_contra moved
    obtain ⟨candidate, inside, same⟩ := List.mem_map.mp (exchanges entry.1 moved)
    obtain ⟨portfolio, _, due, _, buys⟩ := mem_buysOf.mp inside
    have found := (mem_dueOrders.mp due).1
    have stored := (mem_dueOrders.mp ((dueOrders_perm store session.day).mem_iff.mpr waits)).1
    rw [← same, found] at stored
    have buy := (executable_candidate buys).2.2.1
    rw [Option.some.inj stored] at buy
    simp [buy] at sells
  simp [fixed]

theorem Exchanges.cash (exchanges : Exchanges session store portfolioId labels) (owner : String)
    (portfolio : Portfolio) :
    cashAfterSales session (relabelled labels store) owner portfolio =
      cashAfterSales session store owner portfolio := by
  have sold (other : Store) : netSales session portfolio (heldQty portfolio)
      (ordersOf owner (dueOrders other session.day)) =
        netSales session portfolio (heldQty portfolio) (ordersOf owner
          (byId ((waiting other session.day).filter fun entry =>
            decide (entry.2.side = .sell)))) := by
    rw [dueOrders, ordersOf, List.filter_append, List.map_append]
    refine netSales_append _ _ _ ?_
    intro order listed
    obtain ⟨entry, inside, rfl⟩ := List.mem_map.mp listed
    have member := (List.perm_insertionSort _ _).mem_iff.mp (List.mem_filter.mp inside).1
    simpa using (List.mem_filter.mp member).2
  rw [cashAfterSales, cashAfterSales, sold, sold, exchanges.sales]

/-- Whether some book is penniless does not depend on the exchanged ids. -/
theorem Exchanges.returns (exchanges : Exchanges session store portfolioId labels)
    (sound : Sound store) {after : Store} (returned : fillPending session store = .ok after) :
    ∃ other, fillPending session (relabelled labels store) = .ok other := by
  rw [fillPending_returns_iff (exchanges.sound sound)]
  rintro ⟨owner, portfolio, found, broker, none, ⟨id, order⟩, due, own, buys⟩
  refine (fillPending_returns_iff sound).mp ⟨after, returned⟩ ⟨owner, portfolio, found, broker, ?_,
    (labels.symm id, order), mem_due_relabelled.mp due, own, ?_⟩
  · rw [← exchanges.cash owner portfolio]
    exact none
  · obtain ⟨candidate, executes⟩ := Option.isSome_iff_exists.mp buys
    rw [executable_renamed executes]
    rfl

/-- The buys of a book are listed by id. -/
theorem buysOf_sorted (session : Session) (store : Store) (portfolioId : String) :
    ((buysOf session store portfolioId).map Candidate.id).Pairwise (· ≤ ·) := by
  have sales : (byId ((waiting store session.day).filter fun entry =>
      decide (entry.2.side = .sell))).filterMap (collected session store) = [] := by
    rw [List.filterMap_eq_nil_iff]
    intro entry listed
    have member := (List.perm_insertionSort _ _).mem_iff.mp listed
    have sells : entry.2.side = .sell := by simpa using (List.mem_filter.mp member).2
    simp [collected, executable, sells]
  have sorted : (byId ((waiting store session.day).filter fun entry =>
      decide (entry.2.side ≠ .sell))).Pairwise fun left right => left.1 ≤ right.1 :=
    List.pairwise_insertionSort _ _
  rw [buysOf, dueOrders, List.filterMap_append, sales, List.nil_append, List.map_map,
    List.pairwise_map]
  refine List.Pairwise.filter _ (List.Pairwise.filterMap (collected session store) ?_ sorted)
  intro left right before found collects other others
  simp only [collected, Option.bind_eq_some_iff, Option.map_eq_some_iff] at collects others
  obtain ⟨_, _, candidate, buys, rfl⟩ := collects
  obtain ⟨_, _, rival, sells, rfl⟩ := others
  change candidate.id ≤ rival.id
  rw [(executable_candidate buys).1, (executable_candidate sells).1]
  exact before

theorem buysOf_distinct (session : Session) (store : Store) (portfolioId : String) :
    ((buysOf session store portfolioId).map Candidate.id).Nodup := by
  rw [buysOf, List.map_map]
  exact (collected_distinct session store).sublist (List.filter_sublist.map _)

/-- The same ids are listed. -/
theorem Exchanges.ids (exchanges : Exchanges session store portfolioId labels) :
    (buysOf session (relabelled labels store) portfolioId).map Candidate.id =
      (buysOf session store portfolioId).map Candidate.id := by
  have same : ((buysOf session (relabelled labels store) portfolioId).map Candidate.id).Perm
      ((buysOf session store portfolioId).map Candidate.id) := by
    rw [List.perm_ext_iff_of_nodup (buysOf_distinct ..) (buysOf_distinct ..)]
    intro id
    constructor
    · intro listed
      obtain ⟨candidate, inside, rfl⟩ := List.mem_map.mp listed
      exact exchanges.inside_symm.mp
        (List.mem_map.mpr ⟨_, mem_buysOf_relabelled.mp inside, rfl⟩)
    · intro listed
      obtain ⟨candidate, inside, own⟩ := List.mem_map.mp (exchanges.inside_symm.mpr listed)
      refine List.mem_map.mpr ⟨candidate.renamed id, mem_buysOf_relabelled.mpr ?_, rfl⟩
      change candidate.renamed (labels.symm id) ∈ _
      rw [← own]
      exact inside
  exact same.eq_of_pairwise (fun _ _ _ _ first second => le_antisymm first second)
    (buysOf_sorted ..) (buysOf_sorted ..)

/-- The executable buy that a store has under an id. -/
def buyAt (session : Session) (store : Store) (portfolio : Portfolio) (id : OrderId) :
    Option Candidate :=
  (store.orders.lookup id).bind fun order => executable session portfolio (id, order)

/-- What depends on a buy and not on its id is listed by id, before and after an exchange. -/
theorem Exchanges.values {β : Type*} (exchanges : Exchanges session store portfolioId labels)
    {portfolio : Portfolio} (found : store.portfolios.lookup portfolioId = some portfolio)
    (value : Candidate → β) (default : β)
    (ignores : ∀ candidate id, value (candidate.renamed id) = value candidate) :
    let content := fun id => ((buyAt session store portfolio id).map value).getD default
    let ids := (buysOf session store portfolioId).map Candidate.id
    (buysOf session store portfolioId).map value = ids.map content ∧
      (buysOf session (relabelled labels store) portfolioId).map value =
        ids.map (content ∘ labels.symm) := by
  have own {candidate : Candidate} (inside : candidate ∈ buysOf session store portfolioId) :
      buyAt session store portfolio candidate.id = some candidate := by
    obtain ⟨owner, stored, due, _, buys⟩ := mem_buysOf.mp inside
    rw [found] at stored
    cases stored
    have listed := (mem_dueOrders.mp due).1
    dsimp only at listed
    simp only [buyAt, listed, Option.bind_some, buys]
  intro content ids
  constructor
  · rw [List.map_map]
    refine List.map_congr_left fun candidate inside => ?_
    simp [content, own inside]
  · have listed : ids = (buysOf session (relabelled labels store) portfolioId).map Candidate.id :=
      exchanges.ids.symm
    rw [listed, List.map_map]
    refine List.map_congr_left fun candidate inside => ?_
    have back := own (mem_buysOf_relabelled.mp inside)
    simp only [Candidate.renamed] at back
    simp only [content, Function.comp_apply, back, Option.map_some, Option.getD_some]
    exact (ignores candidate _).symm

/-- Values listed by id are listed in another order after an exchange. -/
theorem Exchanges.values_perm {β : Type*} (exchanges : Exchanges session store portfolioId labels)
    {portfolio : Portfolio} (found : store.portfolios.lookup portfolioId = some portfolio)
    (value : Candidate → β) (default : β)
    (ignores : ∀ candidate id, value (candidate.renamed id) = value candidate) :
    ((buysOf session (relabelled labels store) portfolioId).map value).Perm
      ((buysOf session store portfolioId).map value) := by
  obtain ⟨before, after⟩ := exchanges.values found value default ignores
  rw [before, after, ← List.map_map]
  refine List.Perm.map _ ?_
  rw [List.perm_ext_iff_of_nodup
    ((buysOf_distinct ..).map labels.symm.injective) (buysOf_distinct ..)]
  intro id
  constructor
  · intro listed
    obtain ⟨other, inside, rfl⟩ := List.mem_map.mp listed
    exact exchanges.inside_symm.mpr inside
  · intro inside
    exact List.mem_map.mpr ⟨labels id, exchanges.inside.mpr inside, labels.symm_apply_apply id⟩

end Relabel

section Scales

variable {session : Session} {portfolio : Portfolio} {candidates others : List Candidate}

/-- A total is the sum of its legs' costs, or the refusal of one. -/
theorem scaledTotal_eq (session : Session) (portfolio : Portfolio) (scale : ℚ)
    (candidates : List Candidate) :
    scaledTotal session portfolio scale candidates =
      if (candidates.map (legCost session portfolio scale)).all Except.isOk then
        .ok ((candidates.map (legCost session portfolio scale)).map fun cost =>
          cost.toOption.getD 0).sum
      else .error .chargeRefused := by
  have refusal (candidate : Candidate) (raised : FillError)
      (refused : legCost session portfolio scale candidate = .error raised) :
      raised = .chargeRefused := by
    unfold legCost fillFees at refused
    dsimp only at refused
    split at refused
    · rename_i charged
      split at charged
      · cases charged
        cases refused
        rfl
      · cases charged
    · cases refused
  have each : candidates.mapM (legCost session portfolio scale) =
      if (candidates.map (legCost session portfolio scale)).all Except.isOk then
        .ok ((candidates.map (legCost session portfolio scale)).map fun cost =>
          cost.toOption.getD 0)
      else .error .chargeRefused := by
    induction candidates with
    | nil => rfl
    | cons candidate rest ih =>
      rw [List.mapM_cons, ih, List.map_cons, List.all_cons, List.map_cons]
      cases first : legCost session portfolio scale candidate with
      | error raised =>
        rw [refusal candidate raised first]
        rfl
      | ok cost =>
        simp only [Except.isOk, Except.toBool, Bool.true_and]
        split
        · rfl
        · rfl
  rw [scaledTotal, each]
  split
  · rename_i refused
    split at refused
    · cases refused
    · cases refused
      rename_i some
      rw [if_neg some]
  · rename_i computed
    split at computed
    · rename_i all
      cases computed
      rw [if_pos all]
    · cases computed

theorem scaledTotal_perm {scale : ℚ}
    (reordered : (others.map (legCost session portfolio scale)).Perm
      (candidates.map (legCost session portfolio scale))) :
    scaledTotal session portfolio scale others =
      scaledTotal session portfolio scale candidates := by
  rw [scaledTotal_eq, scaledTotal_eq, reordered.all_eq, (reordered.map _).sum_eq]

theorem buyScale_congr
    (same : ∀ scale, scaledTotal session portfolio scale others =
      scaledTotal session portfolio scale candidates) (cash : ℚ) :
    buyScale session portfolio others cash = buyScale session portfolio candidates cash := by
  have refined (attempts : Nat) (scale : ℚ) :
      refineScale session portfolio others cash attempts scale =
        refineScale session portfolio candidates cash attempts scale := by
    induction attempts generalizing scale with
    | zero => rfl
    | succ attempts ih =>
      rw [refineScale, refineScale, same]
      simp only [ih]
  rw [buyScale, buyScale, same]
  simp only [refined]

theorem Exchanges.scale {store : Store} {portfolioId : String} {labels : Equiv.Perm OrderId}
    (exchanges : Exchanges session store portfolioId labels)
    (found : store.portfolios.lookup portfolioId = some portfolio) (cash : ℚ) :
    buyScale session portfolio (buysOf session (relabelled labels store) portfolioId) cash =
      buyScale session portfolio (buysOf session store portfolioId) cash :=
  buyScale_congr (fun scale => scaledTotal_perm
    (exchanges.values_perm found (legCost session portfolio scale) (.error .chargeRefused)
      fun _ _ => rfl)) cash

end Scales

section Runs

variable {session : Session} {store after : Store} {portfolioId : String}

/-- Without an executable buy nothing is bought; with some, they are granted as requests of
the cash that the sales leave. -/
theorem fillPending_bought (sound : Sound store)
    (returned : fillPending session store = .ok after) {portfolio : Portfolio}
    (found : store.portfolios.lookup portfolioId = some portfolio)
    (some : buysOf session store portfolioId ≠ []) :
    ∃ scale, buyScale session portfolio (buysOf session store portfolioId)
        (cashAfterSales session store portfolioId portfolio) = .ok scale ∧
      ∀ ticker, boughtQty after session.day portfolioId ticker =
        boughtQty store session.day portfolioId ticker +
          received Request.ticker (granted portfolio.settings
            (cashAfterSales session store portfolioId portfolio)
            ((buysOf session store portfolioId).map (requestOf session portfolio scale)))
            ticker := by
  obtain ⟨progress, _, passed, apart, ready, unfolded⟩ := due_pass session sound
  have collects : progress.candidates =
      (dueOrders store session.day).filterMap (collected session store) := passed.candidates
  rw [unfolded] at returned
  obtain ⟨candidate, inside⟩ := List.exists_mem_of_ne_nil _ some
  obtain ⟨owner, stored, due, own, buys⟩ := mem_buysOf.mp inside
  rw [found] at stored
  cases stored
  obtain ⟨owner, stored, trading⟩ := (dueOrders_ready sound due).portfolio
  dsimp only at stored
  rw [own, found] at stored
  cases stored
  obtain ⟨book, reached, _, cash⟩ := passed.books portfolioId portfolio found trading
  have grouped : (portfolioId, buysOf session store portfolioId) ∈
      buyGroups progress.candidates := by
    rw [collects]
    refine List.mem_map.mpr ⟨portfolioId, List.mem_eraseDups.mpr ?_, rfl⟩
    refine List.mem_map.mpr ⟨(portfolioId, candidate), ?_, rfl⟩
    exact mem_collected.mpr ⟨_, due, portfolio, by rw [own]; exact found, buys, own.symm⟩
  obtain ⟨reachedPortfolio, scale, stored, scaled, grows⟩ :=
    (groups_bought apart ready returned portfolioId).2 _ grouped rfl
  rw [reached] at stored
  cases stored
  dsimp only at cash scaled grows
  rw [cash] at scaled grows
  refine ⟨scale, scaled, ?_⟩
  intro ticker
  rw [grows ticker, passed.bought]
  rfl

theorem fillPending_unbought (sound : Sound store)
    (returned : fillPending session store = .ok after)
    (none : buysOf session store portfolioId = []) (ticker : Ticker) :
    boughtQty after session.day portfolioId ticker =
      boughtQty store session.day portfolioId ticker := by
  obtain ⟨progress, _, passed, apart, ready, unfolded⟩ := due_pass session sound
  have collects : progress.candidates =
      (dueOrders store session.day).filterMap (collected session store) := passed.candidates
  rw [unfolded] at returned
  rw [(groups_bought apart ready returned portfolioId).1 ?_ ticker, passed.bought]
  rw [buyGroups_books, List.mem_eraseDups, collects]
  intro listed
  obtain ⟨entry, inside, own⟩ := List.mem_map.mp listed
  have bought : entry.2 ∈ buysOf session store portfolioId :=
    List.mem_map.mpr ⟨entry, List.mem_filter.mpr ⟨inside, by simpa using own⟩, rfl⟩
  rw [none] at bought
  cases bought

end Runs

/-- What is bought of any ticker for a book is the same for every assignment of the ids of its
executable buys. -/
def OrderBlind (session : Session) (store : Store) (portfolioId : String) : Prop :=
  ∀ labels, Exchanges session store portfolioId labels →
    ∀ after other, fillPending session store = .ok after →
      fillPending session (relabelled labels store) = .ok other →
        ∀ ticker, boughtQty other session.day portfolioId ticker =
          boughtQty after session.day portfolioId ticker

/-- The scaled legs that the book's cash could serve fit into it together, or there is at most
one. A book on margin is not held to its cash. -/
def LegsFit (session : Session) (store : Store) (portfolioId : String) : Prop :=
  ∀ portfolio scale, store.portfolios.lookup portfolioId = some portfolio →
    portfolio.settings.accountType = .cashLegacy →
    buyScale session portfolio (buysOf session store portfolioId)
      (cashAfterSales session store portfolioId portfolio) = .ok scale →
    Fits buyRule (cashAfterSales session store portfolioId portfolio)
      ((buysOf session store portfolioId).map (requestOf session portfolio scale))

section Blindness

variable {session : Session} {store : Store} {portfolioId : String}

/-- Legs that fit are bought the same under every assignment of the ids. -/
theorem orderBlind_of_legsFit (sound : Sound store) (fit : LegsFit session store portfolioId) :
    OrderBlind session store portfolioId := by
  intro labels exchanges after other returned exchanged ticker
  by_cases empty : buysOf session store portfolioId = []
  · have still : buysOf session (relabelled labels store) portfolioId = [] := by
      have ids := exchanges.ids
      rw [empty] at ids
      exact List.map_eq_nil_iff.mp ids
    rw [fillPending_unbought sound returned empty,
      fillPending_unbought (exchanges.sound sound) exchanged still]
    rfl
  · have still : buysOf session (relabelled labels store) portfolioId ≠ [] := by
      intro gone
      have ids := exchanges.ids
      rw [gone] at ids
      exact empty (List.map_eq_nil_iff.mp ids.symm)
    obtain ⟨candidate, inside⟩ := List.exists_mem_of_ne_nil _ empty
    obtain ⟨portfolio, found, _⟩ := mem_buysOf.mp inside
    obtain ⟨scale, scaled, bought⟩ := fillPending_bought sound returned found empty
    obtain ⟨again, rescaled, rebought⟩ :=
      fillPending_bought (exchanges.sound sound) exchanged found still
    rw [exchanges.cash, exchanges.scale found, scaled] at rescaled
    cases rescaled
    rw [bought, rebought, exchanges.cash]
    have reordered := exchanges.values_perm found (requestOf session portfolio scale) ⟨"", none⟩
      fun _ _ => rfl
    congr 1
    unfold granted
    split
    · rename_i legacy
      exact (received_of_fits (fit portfolio scale found legacy scaled) reordered.symm ticker).symm
    · exact received_perm (reordered.map _) ticker

/-- In a step that returns, buys of different tickers that are bought the same under every
assignment of the ids fit. -/
theorem legsFit_of_orderBlind (sound : Sound store)
    (returns : (fillPending session store).isOk = true)
    (distinct : ((buysOf session store portfolioId).map fun candidate =>
      candidate.order.ticker).Nodup)
    (blind : OrderBlind session store portfolioId) : LegsFit session store portfolioId := by
  intro portfolio scale found legacy scaled
  obtain ⟨after, returned⟩ := exists_ok returns
  by_cases empty : buysOf session store portfolioId = []
  · rw [empty]
    exact .inr (by simp [usable])
  obtain ⟨same, scaled', bought⟩ := fillPending_bought sound returned found empty
  rw [scaled] at scaled'
  cases scaled'
  let content : OrderId → Request := fun id =>
    ((buyAt session store portfolio id).map (requestOf session portfolio scale)).getD ⟨"", none⟩
  let ids := (buysOf session store portfolioId).map Candidate.id
  have still : Exchanges session store portfolioId 1 := fun id moved => absurd rfl moved
  have listed : (buysOf session store portfolioId).map (requestOf session portfolio scale) =
      ids.map content :=
    (still.values found (requestOf session portfolio scale) ⟨"", none⟩ fun _ _ => rfl).1
  rw [listed]
  refine fits_of_blind Request.ticker (buysOf_distinct ..) ?_ ?_
  · have named : (ids.map content).map Request.ticker =
        (buysOf session store portfolioId).map fun candidate => candidate.order.ticker := by
      rw [← listed, List.map_map]
      exact List.map_congr_left fun _ _ => requestOf_ticker
    rw [List.map_map] at named
    exact named ▸ distinct
  · intro first firstListed second secondListed ticker
    have exchanges : Exchanges session store portfolioId (Equiv.swap first second) := by
      intro id moved
      rcases Equiv.swap_apply_ne_self_iff.mp moved with ⟨_, rfl | rfl⟩
      · exact firstListed
      · exact secondListed
    obtain ⟨other, exchanged⟩ := exchanges.returns sound returned
    have still : buysOf session (relabelled (Equiv.swap first second) store) portfolioId ≠ [] := by
      intro gone
      have ids := exchanges.ids
      rw [gone] at ids
      exact empty (List.map_eq_nil_iff.mp ids.symm)
    obtain ⟨again, rescaled, rebought⟩ :=
      fillPending_bought (exchanges.sound sound) exchanged found still
    rw [exchanges.cash, exchanges.scale found, scaled] at rescaled
    cases rescaled
    have equal := blind _ exchanges after other returned exchanged ticker
    rw [bought, rebought, exchanges.cash, listed,
      (exchanges.values found (requestOf session portfolio scale) ⟨"", none⟩ fun _ _ => rfl).2,
      Equiv.symm_swap] at equal
    simp only [granted, legacy, if_true] at equal
    exact add_left_cancel equal

end Blindness

/-- Over a sound store, buys whose legs fit are bought the same under every assignment of
their ids, and for buys of different tickers in a step that returns nothing else is. -/
theorem buys_orderBlind {session : Session} {store : Store} {portfolioId : String}
    (sound : Sound store) :
    (LegsFit session store portfolioId → OrderBlind session store portfolioId) ∧
      ((fillPending session store).isOk = true →
        ((buysOf session store portfolioId).map fun candidate => candidate.order.ticker).Nodup →
        (OrderBlind session store portfolioId ↔ LegsFit session store portfolioId)) :=
  ⟨orderBlind_of_legsFit sound, fun returns distinct =>
    ⟨legsFit_of_orderBlind sound returns distinct, orderBlind_of_legsFit sound⟩⟩

/-- Two buys that share the cash of one book. -/
def sharedCash (profile : CostProfile) (cash : ℚ) : Store :=
  waitingStore profile cash [(1, pendingBuy "AAPL" 1), (2, pendingBuy "MSFT" 1)]

theorem sharedCash_orderBlind :
    (LegsFit openSession (sharedCash .ibkrProTieredV1 1000) "book" →
        OrderBlind openSession (sharedCash .ibkrProTieredV1 1000) "book") ∧
      ((fillPending openSession (sharedCash .ibkrProTieredV1 1000)).isOk = true →
        ((buysOf openSession (sharedCash .ibkrProTieredV1 1000) "book").map fun candidate =>
          candidate.order.ticker).Nodup →
        (OrderBlind openSession (sharedCash .ibkrProTieredV1 1000) "book" ↔
          LegsFit openSession (sharedCash .ibkrProTieredV1 1000) "book")) :=
  buys_orderBlind (waitingStore_sound ..)

/-- After three refinements the legs still exceed the cash; the later order is cut. -/
theorem laterOrder_cut :
    Sound (sharedCash .ibkrProTieredV1 100) ∧
      ¬ OrderBlind openSession (sharedCash .ibkrProTieredV1 100) "book" := by
  refine ⟨waitingStore_sound .., ?_⟩
  intro blind
  have exchanges : Exchanges openSession (sharedCash .ibkrProTieredV1 100) "book"
      (Equiv.swap 1 2) := by
    have ids : (buysOf openSession (sharedCash .ibkrProTieredV1 100) "book").map Candidate.id =
        [1, 2] := by
      decide +kernel
    intro id moved
    rw [ids]
    rcases Equiv.swap_apply_ne_self_iff.mp moved with ⟨_, rfl | rfl⟩
    · exact List.mem_cons_self
    · exact List.mem_cons_of_mem _ List.mem_cons_self
  obtain ⟨after, returned⟩ := exists_ok
    (by decide +kernel : (fillPending openSession (sharedCash .ibkrProTieredV1 100)).isOk = true)
  obtain ⟨other, exchanged⟩ := exists_ok (by decide +kernel : (fillPending openSession
    (relabelled (Equiv.swap 1 2) (sharedCash .ibkrProTieredV1 100))).isOk = true)
  have differs : (fillPending openSession (relabelled (Equiv.swap 1 2)
        (sharedCash .ibkrProTieredV1 100))).toOption.map
          (fun store => boughtQty store 10 "book" "AAPL") ≠
      (fillPending openSession (sharedCash .ibkrProTieredV1 100)).toOption.map
        fun store => boughtQty store 10 "book" "AAPL" := by
    decide +kernel
  rw [returned, exchanged] at differs
  exact differs (congrArg some (blind _ exchanges after other returned exchanged "AAPL"))

end TradingEngine.LeagueFills
