import TradingEngine.MaintenanceCalls
import TradingEngine.MarkUnits
import TradingEngine.ProjectedMargin

/-!
# Reductions after a margin call

The share by which every holding is reduced is the deficit over the requirement. The
requirement of all holdings scaled by a factor is the requirement scaled by it, so that the
reduced account would need exactly its equity. Holdings whose share is dust and holdings with
a pending margin call get no order; as the requirement of a union is at most the sum of the
requirements, what is missing afterwards is at most their share of it.
-/

namespace TradingEngine.Accounts

open KeyedTables OrderTypes Nyse Ledger Costs Fills Runs AccountStore

variable {zone : Zone}

/-- The order that reduces a holding. -/
def reduction (zone : Zone) (day : Int) (ratio : ℚ) (row : Ticker × ℚ) : Order :=
  forcedOrder row.1 (reducingSide row.2) (|row.2| * ratio) .nextOpen OrderType.nextOpen_unlimited day
    (closed zone day) .marginCall

/-- A holding that gets no order: its share is dust or a margin call is pending. -/
def PassedOver (account : Account) (ratio : ℚ) (row : Ticker × ℚ) : Prop :=
  |row.2| * ratio ≤ 1 / 10 ^ 12 ∨ account.hasForced row.1 .marginCall

instance (account : Account) (ratio : ℚ) (row : Ticker × ℚ) :
    Decidable (PassedOver account ratio row) :=
  inferInstanceAs (Decidable (_ ∨ _))

/-- The holdings that get an order, and those that do not. -/
def reducedHoldings (account : Account) (ratio : ℚ) : List (Ticker × ℚ) :=
  account.book.held.filter fun row => ¬PassedOver account ratio row

def passedHoldings (account : Account) (ratio : ℚ) : List (Ticker × ℚ) :=
  account.book.held.filter fun row => PassedOver account ratio row

/-- The orders of an account that another one does not have, by number. -/
def addedOrders (before after : Account) : List (OrderId × Order) :=
  ((after.orders.entries.filter fun row => row.1 ∉ before.orders.keys).map fun row =>
    (row.1, row.2)).insertionSort fun a b => a.1 ≤ b.1

/-- A queued order stands before the others, and concerns its own instrument. -/
theorem queue_entries (account : Account) (sequence : Nat) (order : Order) :
    (account.queue sequence order).orders.entries =
      ⟨nextOrderId sequence account.orders, order⟩ :: account.orders.entries := by
  have fresh : nextOrderId sequence account.orders ∉ account.orders.entries.keys := fun listed =>
    AList.lookup_eq_none.mp (nextOrderId_missing sequence account.orders)
      (AList.mem_keys.mpr listed)
  unfold Account.queue
  rw [AList.entries_insert, List.kerase_of_notMem_keys fresh]

theorem hasForced_queue {account : Account} {sequence : Nat} {order : Order} {ticker : Ticker}
    (other : order.ticker ≠ ticker) (reason : Reason) :
    (account.queue sequence order).hasForced ticker reason = account.hasForced ticker reason := by
  unfold Account.hasForced
  rw [queue_entries, List.any_cons]
  simp [other]

/-- Reducing holdings of different instruments puts their orders under new numbers before the
orders on record. -/
theorem foldl_reduceHolding_entries (world : World zone) (day : Int) (ratio : ℚ)
    {rows : List (Ticker × ℚ)} (distinct : (rows.map Prod.fst).Nodup) (account : Account) :
    ∃ added : List (OrderId × Order),
      (rows.foldl (reduceHolding world day ratio) account).orders.entries =
        added.reverse.map (fun row => ⟨row.1, row.2⟩) ++ account.orders.entries ∧
      (∀ row ∈ added, row.1 ∉ account.orders.keys) ∧
      added.map Prod.snd = (rows.filter fun row => ¬PassedOver account ratio row).map
        (reduction zone day ratio) := by
  induction rows generalizing account with
  | nil => exact ⟨[], rfl, by simp, rfl⟩
  | cons row rest ih =>
    obtain ⟨fresh, others⟩ := List.nodup_cons.mp distinct
    by_cases passed : PassedOver account ratio row
    · have same : reduceHolding world day ratio account row = account := if_pos passed
      rw [List.foldl_cons, same, List.filter_cons_of_neg (by simpa using passed)]
      exact ih others account
    · have queued : reduceHolding world day ratio account row =
          account.queue world.orderSequence (reduction zone day ratio row) := if_neg passed
      obtain ⟨added, entries, unlisted, orders⟩ := ih others
        (account.queue world.orderSequence (reduction zone day ratio row))
      have kept : ∀ other ∈ rest,
          (PassedOver (account.queue world.orderSequence (reduction zone day ratio row)) ratio
            other ↔ PassedOver account ratio other) := by
        intro other listed
        have different : (reduction zone day ratio row).ticker ≠ other.1 := by
          intro same
          have named : row.1 = other.1 := same
          exact fresh (named ▸ List.mem_map_of_mem listed)
        unfold PassedOver
        rw [hasForced_queue different]
      refine ⟨(nextOrderId world.orderSequence account.orders, reduction zone day ratio row) ::
        added, ?_, ?_, ?_⟩
      · rw [List.foldl_cons, queued, entries, queue_entries]
        simp
      · intro entry listed
        rcases List.mem_cons.mp listed with rfl | later
        · exact fun known => AList.lookup_eq_none.mp
            (nextOrderId_missing world.orderSequence account.orders) (AList.mem_keys.mpr known)
        · intro known
          refine unlisted entry later ?_
          unfold AList.keys
          rw [queue_entries]
          exact List.mem_cons_of_mem _ known
      · rw [List.map_cons, orders, List.filter_cons_of_pos (by simpa using passed), List.map_cons]
        congr 2
        refine List.filter_congr fun other listed => ?_
        simp only [kept other listed]

/-- The holdings are of different instruments. -/
theorem held_distinct (book : Book) : (book.held.map Prod.fst).Nodup := by
  have names : (book.held.map Prod.fst).Perm
      ((book.positions.entries.filter fun row => row.2.qty ≠ 0).map Sigma.fst) := by
    unfold Book.held Book.state
    rw [List.map_map, List.map_map]
    exact (List.perm_insertionSort _ _).map _
  refine names.nodup_iff.mpr ?_
  exact List.Nodup.sublist (List.filter_sublist.map Sigma.fst) book.positions.nodupKeys

/-- A call after a breach adds the reductions of the holdings that are not passed over. -/
theorem addedOrders_reductions {world : World zone} {account queued : Account} {day : Int}
    {state : MarginState}
    (marked : marginState world.market account day none 0 none none = .ok state)
    (breached : state.Breached) (reduced : queueMarginReductions world account day = .ok queued) :
    ((addedOrders account queued).map Prod.snd).Perm
      ((reducedHoldings account state.ratio).map (reduction zone day state.ratio)) := by
  rw [queueMarginReductions_breached marked breached] at reduced
  cases reduced
  obtain ⟨added, entries, unlisted, orders⟩ := foldl_reduceHolding_entries world day state.ratio
    (held_distinct account.book) account
  have dropped : account.orders.entries.filter (fun row => row.1 ∉ account.orders.keys) = [] := by
    refine List.filter_eq_nil_iff.mpr fun row listed => ?_
    have known : row.1 ∈ account.orders.keys := List.mem_keys_of_mem listed
    simpa using known
  have kept : (added.reverse.map fun row => (⟨row.1, row.2⟩ : Σ _ : OrderId, Order)).filter
      (fun row => row.1 ∉ account.orders.keys) =
      added.reverse.map fun row => ⟨row.1, row.2⟩ := by
    refine List.filter_eq_self.mpr fun row listed => ?_
    obtain ⟨order, member, rfl⟩ := List.mem_map.mp listed
    simpa using unlisted order (List.mem_reverse.mp member)
  unfold addedOrders
  rw [entries, List.filter_append, dropped, kept, List.append_nil, List.map_map]
  refine (((List.perm_insertionSort _ _).map _).trans ?_).trans (List.Perm.of_eq orders)
  rw [List.map_map]
  exact (List.reverse_perm added).map _

/-- A mark is a positive price. -/
theorem mark_positive {market : Market zone} {account : Account} {ticker : Ticker} {day : Int}
    {asOf availableAt : Option Int} {seen : Mark}
    (marked : mark market account ticker day asOf availableAt = .ok seen) : 0 < seen.price := by
  have split : ∀ {observed : Mark}, 0 < observed.price →
      0 < (splitMark market account.ledger.splits ticker day observed).price := by
    intro observed positive
    unfold splitMark
    dsimp only
    rw [foldl_div]
    exact div_pos positive (prod_ratios_pos _)
  unfold mark at marked
  dsimp only at marked
  split at marked
  · rename_i observed found
    cases marked
    exact split (observation_cases found).2
  · split at marked
    · rename_i observed found
      cases marked
      refine split ?_
      unfold lastFill at found
      obtain ⟨row, first, rfl⟩ := Option.map_eq_some_iff.mp found
      have listed := List.mem_of_mem_head? first
      rw [List.mem_insertionSort, List.mem_filter] at listed
      simpa using (Bool.and_eq_true_iff.mp listed.2).2
    · cases marked

/-- The execution of a reduction. -/
def reductionFill (order : Order) (price : ℚ) (origin : OrderId × Int) : Fill :=
  ⟨some origin, order.ticker, order.side, order.qty, price, 1⟩

/-- Execute reductions one after another at the marks, without costs. -/
def executeReductions (market : Market zone) (account : Account) (day session : Int)
    (orders : List (OrderId × Order)) : Except LedgerError Book :=
  orders.foldlM (fun book row =>
    (applyFill account.ledgerSettings account.ledger.times book
      (reductionFill row.2 (markedPrice market account day none none row.2.ticker)
        (row.1, session)) none).map Applied.book)
    account.book

/-- A reduction that is executed trades the whole share. -/
theorem fillQty_reduction {settings : LedgerSettings} {book : Book} {day : Int} {ratio price : ℚ}
    {row : Ticker × ℚ} {origin : OrderId × Int} {traded : Option ℚ}
    (held : (book.position row.1).qty = row.2) (share : 0 < |row.2| * ratio) (most : ratio ≤ 1)
    (positive : 0 < price)
    (quantity : fillQty settings book (reductionFill (reduction zone day ratio row) price origin)
      none = .ok traded) : traded = some (|row.2| * ratio) := by
  have within : |row.2| * ratio ≤ |row.2| := mul_le_of_le_one_right (abs_nonneg _) most
  have checked : fillChecks settings (book.position row.1)
      (reductionFill (reduction zone day ratio row) price origin) none ≠ .ok false := by
    have positives : ¬¬(0 < (reductionFill (reduction zone day ratio row) price origin).qty ∧
        0 < (reductionFill (reduction zone day ratio row) price origin).px ∧
        0 < (reductionFill (reduction zone day ratio row) price origin).multiplier) :=
      not_not.mpr ⟨share, positive, one_pos⟩
    unfold fillChecks
    rw [if_neg positives]
    split_ifs <;> simp
  have clamped : tradedQty settings book.cash 0 row.2
      (reductionFill (reduction zone day ratio row) price origin) = .ok traded := by
    unfold fillQty at quantity
    dsimp only at quantity
    split at quantity
    · cases quantity
    · rename_i refused
      exact absurd refused checked
    · have same : (book.position (reductionFill (reduction zone day ratio row) price
          origin).ticker).qty = row.2 := held
      rw [same] at quantity
      exact quantity
  have nonzero : row.2 ≠ 0 := by
    rintro zero
    simp [zero] at share
  rcases lt_or_gt_of_ne nonzero with short | long
  · have side : (reductionFill (reduction zone day ratio row) price origin).side = .cover :=
      if_neg (not_lt.mpr short.le)
    unfold tradedQty at clamped
    rw [side] at clamped
    dsimp only at clamped
    rw [if_neg (not_le.mpr short)] at clamped
    exact (Except.ok.inj clamped).symm.trans (congrArg some (min_eq_left within))
  · have side : (reductionFill (reduction zone day ratio row) price origin).side = .sell :=
      if_pos long
    unfold tradedQty at clamped
    rw [side] at clamped
    dsimp only at clamped
    rw [if_neg (not_le.mpr long)] at clamped
    rw [abs_of_pos long] at within ⊢
    exact (Except.ok.inj clamped).symm.trans (congrArg some (by
      change min (|row.2| * ratio) row.2 = row.2 * ratio
      rw [abs_of_pos long, min_eq_left within]))

/-- An executed reduction leaves the rest of the holding and is paid the share of its value. -/
theorem applyFill_reduction {settings : LedgerSettings} {times : FillTimes} {book : Book}
    {day : Int} {ratio price : ℚ} {row : Ticker × ℚ} {origin : OrderId × Int} {applied : Applied}
    (held : (book.position row.1).qty = row.2) (share : 0 < |row.2| * ratio) (most : ratio ≤ 1)
    (positive : 0 < price)
    (filled : applyFill settings times book
      (reductionFill (reduction zone day ratio row) price origin) none = .ok applied) :
    applied.book.cash = book.cash + ratio * (row.2 * price) ∧
      ∃ left, applied.book.positions = book.positions.insert row.1 left ∧
        left.qty = (1 - ratio) * row.2 := by
  rcases applyFill_cases filled with ⟨rejected, -⟩ | ⟨qty, lots, trades, closes, quantity, -, rfl⟩
  · cases fillQty_reduction held share most positive rejected
  · obtain rfl := Option.some.inj (fillQty_reduction held share most positive quantity)
    have signed : (reductionFill (reduction zone day ratio row) price origin).side.sign *
        (|row.2| * ratio) = -(ratio * row.2) := by
      change (reducingSide row.2).sign * (|row.2| * ratio) = -(ratio * row.2)
      unfold reducingSide
      split
      · rename_i long
        rw [abs_of_pos long, Side.sign]
        ring
      · rename_i short
        rw [abs_of_nonpos (not_lt.mp short), Side.sign]
        ring
    refine ⟨?_, _, rfl, ?_⟩
    · calc book.cash - (reductionFill (reduction zone day ratio row) price origin).side.sign *
            (|row.2| * ratio * price * 1) - feeTotal none
          = book.cash - (reductionFill (reduction zone day ratio row) price origin).side.sign *
            (|row.2| * ratio) * price := by
            simp only [feeTotal, Option.map_none, Option.getD_none]
            ring
        _ = book.cash + ratio * (row.2 * price) := by
            rw [signed]
            ring
    · change (book.position row.1).qty + _ * (|row.2| * ratio) = _
      rw [signed, held]
      ring

section Execution

variable {market : Market zone} {account : Account} {day session : Int} {ratio : ℚ}

/-- A value that a reduced holding keeps all but the share of. -/
structure Proportional (ratio : ℚ) (value : ℚ → ℚ → ℚ) : Prop where
  nothing : ∀ price, value 0 price = 0
  scaled : ∀ qty price, value ((1 - ratio) * qty) price = (1 - ratio) * value qty price

/-- The value of a book's positions at the marks. -/
def positionValue (market : Market zone) (account : Account) (day : Int) (value : ℚ → ℚ → ℚ)
    (book : Book) : ℚ :=
  total (fun ticker row => value row.qty (markedPrice market account day none none ticker))
    book.positions

/-- The value of the holdings that orders concern. -/
def orderedValue (market : Market zone) (account : Account) (day : Int) (value : ℚ → ℚ → ℚ)
    (book : Book) (orders : List (OrderId × Order)) : ℚ :=
  (orders.map fun row => value (book.position row.2.ticker).qty
    (markedPrice market account day none none row.2.ticker)).sum

/-- An order reduces a holding of a book at a positive price. -/
def Reduces (market : Market zone) (account : Account) (day : Int) (ratio : ℚ) (book : Book)
    (order : Order) : Prop :=
  ∃ holding : Ticker × ℚ, order = reduction zone day ratio holding ∧
    (book.position holding.1).qty = holding.2 ∧ 0 < |holding.2| * ratio ∧
    0 < markedPrice market account day none none holding.1

/-- One execution takes the share of its holding's value, and leaves the other positions. -/
theorem applyFill_positionValue {book : Book} {row : OrderId × Order} {applied : Applied}
    (reduces : Reduces market account day ratio book row.2) (most : ratio ≤ 1)
    (filled : applyFill account.ledgerSettings account.ledger.times book
      (reductionFill row.2 (markedPrice market account day none none row.2.ticker)
        (row.1, session)) none = .ok applied) :
    applied.book.cash = book.cash + ratio * ((book.position row.2.ticker).qty *
      markedPrice market account day none none row.2.ticker) ∧
    (∀ other, other ≠ row.2.ticker →
      applied.book.positions.lookup other = book.positions.lookup other) ∧
    ∀ value, Proportional ratio value →
      positionValue market account day value applied.book =
        positionValue market account day value book - ratio * value
          (book.position row.2.ticker).qty
          (markedPrice market account day none none row.2.ticker) := by
  obtain ⟨id, order⟩ := row
  obtain ⟨holding, rfl, held, share, positive⟩ := reduces
  obtain ⟨cash, left, positions, qty⟩ := applyFill_reduction held share most positive filled
  have ticker : (reduction zone day ratio holding).ticker = holding.1 := rfl
  refine ⟨?_, ?_, ?_⟩
  · rw [cash, ticker, held]
  · intro other different
    have apart : other ≠ holding.1 := different
    rw [positions, AList.lookup_insert_ne apart]
  · intro value proportional
    obtain ⟨stored, found⟩ : ∃ stored, book.positions.lookup holding.1 = some stored := by
      refine Option.ne_none_iff_exists'.mp fun missing => ?_
      simp [Book.position, missing] at held
      simp [← held] at share
    have quantity : stored.qty = holding.2 := by
      simpa [Book.position, found] using held
    unfold positionValue
    rw [positions, total_insert, total_erase _ found, qty, proportional.scaled, ticker, held,
      quantity]
    ring

theorem foldlM_reductions {orders : List (OrderId × Order)} {book final : Book}
    (reduces : ∀ row ∈ orders, Reduces market account day ratio book row.2) (most : ratio ≤ 1)
    (distinct : (orders.map fun row => row.2.ticker).Nodup)
    (executed : orders.foldlM (fun book row =>
      (applyFill account.ledgerSettings account.ledger.times book
        (reductionFill row.2 (markedPrice market account day none none row.2.ticker)
          (row.1, session)) none).map Applied.book) book = .ok final) :
    final.cash = book.cash +
      ratio * orderedValue market account day (fun qty price => qty * price) book orders ∧
    (∀ other, other ∉ (orders.map fun row => row.2.ticker) →
      final.positions.lookup other = book.positions.lookup other) ∧
    ∀ value, Proportional ratio value →
      positionValue market account day value final =
        positionValue market account day value book -
          ratio * orderedValue market account day value book orders := by
  induction orders generalizing book with
  | nil =>
    cases executed
    simp [orderedValue]
  | cons row rest ih =>
    obtain ⟨fresh, others⟩ := List.nodup_cons.mp distinct
    obtain ⟨next, first, executed⟩ := foldlM_cons_ok.mp executed
    obtain ⟨applied, filled, rfl⟩ := map_ok.mp first
    obtain ⟨cash, kept, values⟩ := applyFill_positionValue (reduces row List.mem_cons_self) most
      filled
    have elsewhere : ∀ other ∈ rest, applied.book.position other.2.ticker =
        book.position other.2.ticker := by
      intro other listed
      have different : other.2.ticker ≠ row.2.ticker := fun same =>
        fresh (List.mem_map.mpr ⟨other, listed, same⟩)
      unfold Book.position
      rw [kept _ different]
    have same : ∀ value : ℚ → ℚ → ℚ, orderedValue market account day value applied.book rest =
        orderedValue market account day value book rest := by
      intro value
      unfold orderedValue
      refine congrArg List.sum (List.map_congr_left fun other listed => ?_)
      rw [elsewhere other listed]
    have ordered : ∀ value : ℚ → ℚ → ℚ, orderedValue market account day value book (row :: rest) =
        value (book.position row.2.ticker).qty
          (markedPrice market account day none none row.2.ticker) +
        orderedValue market account day value book rest := fun value => List.sum_cons
    obtain ⟨laterCash, laterKept, laterValues⟩ := ih (fun other listed => by
      obtain ⟨holding, shaped, held, share⟩ := reduces other (List.mem_cons_of_mem _ listed)
      have ticker : other.2.ticker = holding.1 := by rw [shaped]; rfl
      exact ⟨holding, shaped, by rw [← ticker, elsewhere other listed, ticker, held], share⟩)
      others executed
    refine ⟨?_, ?_, ?_⟩
    · rw [laterCash, cash, same, ordered]
      ring
    · intro other unlisted
      rw [List.map_cons, List.mem_cons, not_or] at unlisted
      rw [laterKept other unlisted.2, kept other unlisted.1]
    · intro value proportional
      rw [laterValues value proportional, values value proportional, same, ordered]
      ring

end Execution

section Restored

variable {market : Market zone} {account : Account} {day : Int}

/-- The value of some holdings at the marks. -/
def worth (market : Market zone) (account : Account) (day : Int) (value : ℚ → ℚ → ℚ)
    (rows : List (Ticker × ℚ)) : ℚ :=
  (rows.map fun row => value row.2 (markedPrice market account day none none row.1)).sum

/-- What some holdings require by themselves. -/
def requirementOf (market : Market zone) (account : Account) (day : Int)
    (rows : List (Ticker × ℚ)) : ℚ :=
  (requirements 0 (rows.map (markHolding market account day none none))).maintenanceRequirement

theorem requirementOf_eq (rows : List (Ticker × ℚ)) :
    requirementOf market account day rows = 1 / 4 * worth market account day longWorth rows +
      max (3 / 10 * worth market account day shortWorth rows)
        (worth market account day floorWorth rows) := by
  unfold requirementOf worth
  rw [requirements_eq, List.map_map, List.map_map, List.map_map]
  rfl

/-- Margin is computed exactly if every holding has a mark, from the values of the positions. -/
theorem marginState_ok_iff {state : MarginState} {book : Book} :
    marginState market { account with book := book } day none 0 none none = .ok state ↔
      Observed market { account with book := book } day none none ∧
        state = assess book.cash (positionValue market account day longWorth book)
          (positionValue market account day shortWorth book)
          (positionValue market account day floorWorth book) := by
  have computed : requirements (book.cash - 0) (book.held.map
      (markHolding market { account with book := book } day none none)) =
      assess book.cash (positionValue market account day longWorth book)
        (positionValue market account day shortWorth book)
        (positionValue market account day floorWorth book) := by
    have each : ∀ value : ℚ → ℚ → ℚ, (∀ price, value 0 price = 0) →
        ((book.held.map (markHolding market { account with book := book } day none none)).map
          fun row => value row.2.1 row.2.2).sum = positionValue market account day value book :=
      fun value nothing => marks_sum nothing
    rw [requirements_eq, sub_zero, each longWorth (by simp [longWorth]),
      each shortWorth (by simp [shortWorth]), each floorWorth (by simp [floorWorth])]
  constructor
  · intro returned
    obtain ⟨marks, marked, returned⟩ := bind_ok.mp returned
    obtain ⟨observed, rfl⟩ := heldMarks_ok_iff.mp marked
    exact ⟨observed, (Except.ok.inj returned).symm.trans computed⟩
  · rintro ⟨observed, rfl⟩
    exact bind_ok.mpr ⟨_, heldMarks_ok_iff.mpr ⟨observed, rfl⟩, congrArg Except.ok computed⟩

/-- A sum over a list is the sum over the elements that pass a test and over the others. -/
theorem sum_filter_add {α : Type} (passes : α → Prop) [DecidablePred passes] (value : α → ℚ)
    (elements : List α) :
    ((elements.filter fun element => ¬passes element).map value).sum +
      ((elements.filter fun element => passes element).map value).sum =
        (elements.map value).sum := by
  induction elements with
  | nil => simp
  | cons element rest ih =>
    by_cases passed : passes element
    · rw [List.filter_cons_of_neg (by simpa using passed),
        List.filter_cons_of_pos (by simpa using passed), List.map_cons, List.sum_cons,
        List.map_cons, List.sum_cons, ← ih]
      ring
    · rw [List.filter_cons_of_pos (by simpa using passed),
        List.filter_cons_of_neg (by simpa using passed), List.map_cons, List.sum_cons,
        List.map_cons, List.sum_cons, ← ih]
      ring

theorem positionValue_eq {value : ℚ → ℚ → ℚ} (nothing : ∀ price, value 0 price = 0) (ratio : ℚ) :
    positionValue market account day value account.book =
      worth market account day value (reducedHoldings account ratio) +
        worth market account day value (passedHoldings account ratio) := by
  unfold positionValue
  rw [← held_sum account.book (fun ticker qty => value qty
    (markedPrice market account day none none ticker)) fun _ => nothing _]
  exact (sum_filter_add (PassedOver account ratio) _ _).symm

theorem orderedValue_eq {orders : List (OrderId × Order)} {ratio : ℚ}
    (shaped : (orders.map Prod.snd).Perm
      ((reducedHoldings account ratio).map (reduction zone day ratio))) (value : ℚ → ℚ → ℚ) :
    orderedValue market account day value account.book orders =
      worth market account day value (reducedHoldings account ratio) := by
  have sums := ((shaped.map fun order => value (account.book.position order.ticker).qty
    (markedPrice market account day none none order.ticker))).sum_eq
  rw [List.map_map, List.map_map] at sums
  refine sums.trans (congrArg List.sum (List.map_congr_left fun row listed => ?_))
  obtain ⟨stored, found, qty, -⟩ := mem_held.mp (List.mem_of_mem_filter listed)
  have held : (account.book.position row.1).qty = row.2 := by
    simp [Book.position, found, qty]
  change value (account.book.position row.1).qty _ = _
  rw [held]
  rfl

/-- A requirement that the whole share would cover falls short by no more than the share of
what is passed over. -/
theorem assess_reduced {ratio cash longs shorts floors passedLongs passedShorts passedFloors : ℚ}
    (nonneg : 0 ≤ ratio) (most : ratio ≤ 1)
    (share : ratio * (1 / 4 * (longs + passedLongs) +
      max (3 / 10 * (shorts + passedShorts)) (floors + passedFloors)) =
      1 / 4 * (longs + passedLongs) + max (3 / 10 * (shorts + passedShorts))
        (floors + passedFloors) - (cash + (longs + passedLongs) - (shorts + passedShorts))) :
    -(ratio * (1 / 4 * passedLongs + max (3 / 10 * passedShorts) passedFloors)) ≤
      (assess (cash + ratio * (longs - shorts)) (longs + passedLongs - ratio * longs)
        (shorts + passedShorts - ratio * shorts)
        (floors + passedFloors - ratio * floors)).maintenanceExcess := by
  have left : 0 ≤ 1 - ratio := sub_nonneg.mpr most
  have subadditive : max (3 / 10 * (shorts + passedShorts - ratio * shorts))
      (floors + passedFloors - ratio * floors) ≤
      (1 - ratio) * max (3 / 10 * (shorts + passedShorts)) (floors + passedFloors) +
        ratio * max (3 / 10 * passedShorts) passedFloors := by
    refine max_le ?_ ?_
    · calc 3 / 10 * (shorts + passedShorts - ratio * shorts)
          = (1 - ratio) * (3 / 10 * (shorts + passedShorts)) +
            ratio * (3 / 10 * passedShorts) := by ring
        _ ≤ _ := add_le_add (mul_le_mul_of_nonneg_left (le_max_left _ _) left)
            (mul_le_mul_of_nonneg_left (le_max_left _ _) nonneg)
    · calc floors + passedFloors - ratio * floors
          = (1 - ratio) * (floors + passedFloors) + ratio * passedFloors := by ring
        _ ≤ _ := add_le_add (mul_le_mul_of_nonneg_left (le_max_right _ _) left)
            (mul_le_mul_of_nonneg_left (le_max_right _ _) nonneg)
  unfold assess
  dsimp only
  linarith

/-- The values that margin sums are proportional to the quantity. -/
theorem worth_proportional {ratio : ℚ} (most : ratio ≤ 1) :
    Proportional ratio longWorth ∧ Proportional ratio shortWorth ∧
      Proportional ratio floorWorth := by
  rcases (sub_nonneg.mpr most).eq_or_lt with all | some
  · refine ⟨⟨?_, ?_⟩, ⟨?_, ?_⟩, ⟨?_, ?_⟩⟩ <;>
      simp [longWorth, shortWorth, floorWorth, ← all]
  · have positive : ∀ qty : ℚ, 0 < (1 - ratio) * qty ↔ 0 < qty := fun qty =>
      mul_pos_iff_of_pos_left some
    have negative : ∀ qty : ℚ, (1 - ratio) * qty < 0 ↔ qty < 0 := fun qty => by
      rw [← not_le, mul_nonneg_iff_of_pos_left some, not_le]
    refine ⟨⟨by simp [longWorth], fun qty price => ?_⟩, ⟨by simp [shortWorth], fun qty price => ?_⟩,
      ⟨by simp [floorWorth], fun qty price => ?_⟩⟩
    · simp only [longWorth, positive, mul_ite, mul_zero, mul_assoc]
    · simp only [shortWorth, negative, mul_ite, mul_zero, abs_mul, abs_of_pos some, mul_assoc]
    · simp only [floorWorth, negative, mul_ite, mul_zero, abs_mul, abs_of_pos some, mul_assoc]

/-- What holdings are worth with their signs. -/
theorem worth_signed (rows : List (Ticker × ℚ)) :
    worth market account day (fun qty price => qty * price) rows =
      worth market account day longWorth rows - worth market account day shortWorth rows := by
  unfold worth
  induction rows with
  | nil => simp
  | cons row rest ih =>
    have signed : row.2 * markedPrice market account day none none row.1 =
        longWorth row.2 (markedPrice market account day none none row.1) -
          shortWorth row.2 (markedPrice market account day none none row.1) := by
      unfold longWorth shortWorth
      rcases lt_trichotomy row.2 0 with negative | zero | positive
      · rw [if_neg (not_lt.mpr negative.le), if_pos negative, abs_of_neg negative]
        ring
      · simp [zero]
      · rw [if_pos positive, if_neg (not_lt.mpr positive.le), sub_zero]
    rw [List.map_cons, List.sum_cons, ih, List.map_cons, List.sum_cons,
      List.map_cons, List.sum_cons]
    dsimp only
    rw [signed]
    ring

/-- The share of a solvent account's requirement is its deficit. -/
theorem ratio_of_solvent {state : MarginState}
    (excess : state.maintenanceExcess = state.equity - state.maintenanceRequirement)
    (solvent : 0 ≤ state.equity) (short : state.maintenanceExcess < 0) :
    state.Breached ∧ 0 < state.ratio ∧ state.ratio * state.maintenanceRequirement =
      state.maintenanceRequirement - state.equity := by
  have positive : 0 < state.maintenanceRequirement := by linarith
  have ratio : state.ratio = -state.maintenanceExcess / state.maintenanceRequirement := by
    refine min_eq_right ((div_le_one positive).mpr ?_)
    linarith
  refine ⟨?_, ?_, ?_⟩
  · rintro (enough | nothing)
    · exact absurd short (not_lt.mpr enough)
    · exact absurd positive (not_lt.mpr nothing)
  · rw [ratio]
    exact div_pos (neg_pos.mpr short) positive
  · rw [ratio, div_mul_cancel₀ _ positive.ne', excess]
    ring

/-- The orders of a margin call reduce holdings of the book, each of its own instrument. -/
theorem addedOrders_reduce {orders : List (OrderId × Order)} {ratio : ℚ}
    (observed : Observed market account day none none) (positive : 0 < ratio)
    (shaped : (orders.map Prod.snd).Perm
      ((reducedHoldings account ratio).map (reduction zone day ratio))) :
    (∀ row ∈ orders, Reduces market account day ratio account.book row.2) ∧
      (orders.map fun row => row.2.ticker).Nodup := by
  constructor
  · intro row listed
    obtain ⟨holding, member, shape⟩ := List.mem_map.mp
      (shaped.mem_iff.mp (List.mem_map_of_mem listed))
    have held := List.mem_of_mem_filter member
    obtain ⟨stored, found, qty, nonzero⟩ := mem_held.mp held
    obtain ⟨seen, marked⟩ := exists_ok (observed holding held)
    refine ⟨holding, shape.symm, by simp [Book.position, found, qty],
      mul_pos (abs_pos.mpr nonzero) positive, ?_⟩
    unfold markedPrice
    rw [marked]
    exact mark_positive marked
  · have tickers := shaped.map Order.ticker
    rw [List.map_map, List.map_map] at tickers
    refine tickers.nodup_iff.mpr ?_
    exact List.Nodup.sublist (List.filter_sublist.map Prod.fst) (held_distinct account.book)

/-- After a margin call of a solvent account is executed at the marks, what is missing to
maintenance is at most the share of the requirement of the holdings without an order; nothing
is missing when every holding has one. No order is larger than its position. -/
theorem reductions_restore {world : World zone} {account queued : Account} {day session : Int}
    {state : MarginState} {book : Book}
    (marked : marginState world.market account day none 0 none none = .ok state)
    (solvent : 0 ≤ state.equity) (short : state.maintenanceExcess < 0)
    (reduced : queueMarginReductions world account day = .ok queued)
    (executed : executeReductions world.market account day session
      (addedOrders account queued) = .ok book) :
    (∀ row ∈ addedOrders account queued,
      row.2.qty ≤ |(account.book.position row.2.ticker).qty|) ∧
    ∃ after,
      marginState world.market { account with book := book } day none 0 none none = .ok after ∧
      -(state.ratio * requirementOf world.market account day
        (passedHoldings account state.ratio)) ≤ after.maintenanceExcess ∧
      (passedHoldings account state.ratio = [] → 0 ≤ after.maintenanceExcess) := by
  obtain ⟨observed, valued⟩ := marginState_ok_iff.mp marked
  have excess : state.maintenanceExcess = state.equity - state.maintenanceRequirement := by
    rw [valued]
    rfl
  obtain ⟨breached, nonneg, share⟩ := ratio_of_solvent excess solvent short
  have most : state.ratio ≤ 1 := min_le_left _ _
  have shaped := addedOrders_reductions marked breached reduced
  obtain ⟨reduces, distinct⟩ := addedOrders_reduce observed nonneg shaped
  refine ⟨fun row listed => ?_, ?_⟩
  · obtain ⟨holding, shape, held, -⟩ := reduces row listed
    rw [shape]
    change |holding.2| * state.ratio ≤ |(account.book.position holding.1).qty|
    rw [held]
    exact mul_le_of_le_one_right (abs_nonneg _) most
  · obtain ⟨cash, kept, values⟩ := foldlM_reductions reduces most distinct executed
    have after : Observed world.market { account with book := book } day none none := by
      rintro ⟨ticker, qty⟩ listed
      by_cases ordered : ticker ∈ (addedOrders account queued).map fun row => row.2.ticker
      · obtain ⟨row, member, rfl⟩ := List.mem_map.mp ordered
        obtain ⟨holding, shape, -, -, priced⟩ := reduces row member
        have ticker : row.2.ticker = holding.1 := by rw [shape]; rfl
        change (mark world.market account row.2.ticker day none none).isOk = true
        rw [ticker]
        unfold markedPrice at priced
        split at priced
        · rename_i seen marked
          rw [marked]
          rfl
        · exact absurd priced (lt_irrefl 0)
      · obtain ⟨stored, found, same, nonzero⟩ := mem_held.mp listed
        rw [kept ticker ordered] at found
        exact observed (ticker, qty) (mem_held.mpr ⟨stored, found, same, nonzero⟩)
    obtain ⟨long, short, floor⟩ := worth_proportional most
    rw [orderedValue_eq shaped, worth_signed] at cash
    have longs := values longWorth long
    have shorts := values shortWorth short
    have floors := values floorWorth floor
    rw [orderedValue_eq shaped, positionValue_eq long.nothing state.ratio] at longs
    rw [orderedValue_eq shaped, positionValue_eq short.nothing state.ratio] at shorts
    rw [orderedValue_eq shaped, positionValue_eq floor.nothing state.ratio] at floors
    rw [positionValue_eq long.nothing state.ratio, positionValue_eq short.nothing state.ratio,
      positionValue_eq floor.nothing state.ratio] at valued
    rw [congrArg MarginState.maintenanceRequirement valued, congrArg MarginState.equity valued]
      at share
    have bound := assess_reduced nonneg.le most share
    rw [← cash, ← longs, ← shorts, ← floors, ← requirementOf_eq] at bound
    refine ⟨_, marginState_ok_iff.mpr ⟨after, rfl⟩, bound, fun none => ?_⟩
    rw [none, requirementOf_eq] at bound
    simpa [worth] using bound

end Restored

/-- A margin account that owes cash and holds a hundred shares bought at a hundred dollars. -/
def holderOwing (debt : ℚ) : Account :=
  { indebtedAccount with
    book := ⟨-debt, (∅ : Table Ticker Position).insert "XYZ" ⟨100, 100⟩,
      (∅ : Lots).insert ("XYZ", 1) ⟨739000, 100, 100⟩, []⟩ }

/-- The excess of a holder after its reductions are executed. -/
def excessAfter (account : Account) : Except AccountError (Except LedgerError ℚ) := do
  let queued ← queueMarginReductions hundredWorld account 739769
  match executeReductions hundredWorld.market account 739769 739770
      (addedOrders account queued) with
  | .error raised => .ok (.error raised)
  | .ok book =>
    let after ← marginState hundredWorld.market { account with book := book } 739769 none 0 none
      none
    .ok (.ok after.maintenanceExcess)

/-- A holder that owes 9000 dollars sells sixty shares and has no excess left. -/
theorem indebted_restored : ∃ queued book after,
    queueMarginReductions hundredWorld (holderOwing 9000) 739769 = .ok queued ∧
    executeReductions hundredWorld.market (holderOwing 9000) 739769 739770
      (addedOrders (holderOwing 9000) queued) = .ok book ∧
    marginState hundredWorld.market { holderOwing 9000 with book := book } 739769 none 0 none
      none = .ok after ∧ 0 ≤ after.maintenanceExcess := by
  have marked : marginState hundredWorld.market (holderOwing 9000) 739769 none 0 none none =
      .ok ⟨1000, 10000, 0, 2500, -4000, -1500⟩ := by decide +kernel
  have computed : excessAfter (holderOwing 9000) = .ok (.ok 0) := by decide +kernel
  obtain ⟨queued, reduced, computed⟩ := bind_ok.mp computed
  cases executed : executeReductions hundredWorld.market (holderOwing 9000) 739769 739770
      (addedOrders (holderOwing 9000) queued) with
  | error raised =>
    rw [executed] at computed
    cases computed
  | ok book =>
    obtain ⟨-, after, returned, -, restored⟩ :=
      reductions_restore marked (by norm_num) (by norm_num) reduced executed
    exact ⟨queued, book, after, reduced, executed, returned, restored (by decide +kernel)⟩

/-- A deficit of a hundredth of a billionth of a dollar is left: no share is large enough for
an order. -/
theorem dust_unrestored : ¬∀ (world : World daylightTime) (account queued : Account)
    (day session : Int) (state : MarginState) (book : Book),
    marginState world.market account day none 0 none none = .ok state →
    0 ≤ state.equity → state.maintenanceExcess < 0 →
    queueMarginReductions world account day = .ok queued →
    executeReductions world.market account day session (addedOrders account queued) = .ok book →
    ∃ after,
      marginState world.market { account with book := book } day none 0 none none = .ok after ∧
      0 ≤ after.maintenanceExcess := by
  intro every
  have marked : marginState hundredWorld.market (holderOwing (7500 + 1 / 10 ^ 11)) 739769 none 0
      none none = .ok
        ⟨2500 - 1 / 10 ^ 11, 10000, 0, 2500, -2500 - 1 / 10 ^ 11, -(1 / 10 ^ 11)⟩ := by
    decide +kernel
  have computed : excessAfter (holderOwing (7500 + 1 / 10 ^ 11)) = .ok (.ok (-(1 / 10 ^ 11))) := by
    decide +kernel
  obtain ⟨queued, reduced, computed⟩ := bind_ok.mp computed
  cases executed : executeReductions hundredWorld.market (holderOwing (7500 + 1 / 10 ^ 11)) 739769
      739770 (addedOrders (holderOwing (7500 + 1 / 10 ^ 11)) queued) with
  | error raised =>
    rw [executed] at computed
    cases computed
  | ok book =>
    obtain ⟨after, returned, restored⟩ := every _ _ queued _ 739770 _ book marked (by norm_num)
      (by norm_num) reduced executed
    rw [executed] at computed
    obtain ⟨state, same, computed⟩ := bind_ok.mp computed
    obtain rfl := Except.ok.inj (returned.symm.trans same)
    have left := Except.ok.inj (Except.ok.inj computed)
    rw [left] at restored
    norm_num at restored

end TradingEngine.Accounts
