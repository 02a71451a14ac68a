import TradingEngine.Allocation
import TradingEngine.LotCarry
import TradingEngine.OrderFlow

/-!
# How a session shares its liquidity

The due orders of one direction of one instrument ask for its volume in receipt
order. The pass over all of them is, for each direction of each instrument, an
allocation of its own. An execution takes at most what its order planned, and only
when the order was not refused.
-/

namespace TradingEngine.Accounts

open KeyedTables OrderTypes Nyse Ledger Costs Fills Runs Allocation

variable {zone : Zone}

/-- One direction of one instrument in one session. -/
structure Lane where
  session : Int
  ticker : Ticker
  direction : Bool

/-- Whether an order asks for the volume of a lane, in whatever session. -/
def Lane.carries (lane : Lane) (row : PendingRow) : Bool :=
  decide (row.ticker = lane.ticker) && decide (buying row.side = lane.direction)

/-- Whether a prepared order asks for the volume of a lane. -/
def Lane.holds (lane : Lane) (item : Prepared) : Bool := lane.carries item.1

/-- The lane of a due order. -/
def laneOf (day : Int) (row : PendingRow) : Lane := ⟨day, row.ticker, buying row.side⟩

/-- What a prepared order would trade at its reference price. -/
def planned (item : Prepared) : ℚ :=
  match item.2 with
  | .filled terms => item.1.qty * terms.referencePx
  | _ => 0

/-- What the volume that an order sees allows its lane. -/
def volumeLimit (item : Prepared) : Option ℚ :=
  match item.2 with
  | .filled terms => terms.medianDollarVol.map fun volume => volume / 100 + 1 / 10 ^ 9
  | _ => none

/-- The place of an order in the order of receipt. -/
def receiptKey (row : PendingRow) : Int ×ₗ Nat := toLex (row.receivedAt, row.orderId)

/-- What an account has traded in a lane. -/
def Account.taken (account : Account) (lane : Lane) : ℚ :=
  existingNotional account lane.session lane.ticker lane.direction

/-- Whether an order asks for more than its lane has left. -/
def Liquidity.exceeded (state : Liquidity) (item : Prepared) : Prop :=
  ∃ bound ∈ volumeLimit item,
    bound < state.used item.1.ticker (buying item.1.side) + planned item

theorem holds_iff {lane : Lane} {item : Prepared} :
    lane.holds item = true ↔
      item.1.ticker = lane.ticker ∧ buying item.1.side = lane.direction := by
  simp [Lane.holds, Lane.carries]

/-- One step of the pass, for a lane and for the orders refused. -/
theorem grant_step (state : Liquidity) (item : Prepared) (lane : Lane) :
    (state.exceeded item → (state.grant item).used = state.used ∧
      (state.grant item).refused = item.1.orderId :: state.refused) ∧
    (¬ state.exceeded item → (state.grant item).refused = state.refused ∧
      (state.grant item).used lane.ticker lane.direction =
        if lane.holds item then state.used lane.ticker lane.direction + planned item
        else state.used lane.ticker lane.direction) := by
  obtain ⟨row, result⟩ := item
  cases result with
  | filled terms =>
    have same : state.exceeded (row, .filled terms) ↔
        ∃ volume ∈ terms.medianDollarVol, volume / 100 + 1 / 10 ^ 9 <
          state.used row.ticker (buying row.side) + row.qty * terms.referencePx := by
      simp [Liquidity.exceeded, volumeLimit, planned]
    constructor
    · intro exceeded
      simp only [Liquidity.grant, if_pos (same.mp exceeded), and_self]
    · intro within
      simp only [Liquidity.grant, if_neg (mt same.mpr within), true_and, holds_iff, planned]
      by_cases inside : row.ticker = lane.ticker ∧ buying row.side = lane.direction
      · simp [inside]
      · rw [if_neg inside, if_neg]
        rintro ⟨ticker, direction⟩
        exact inside ⟨ticker.symm, direction.symm⟩
  | rejected reason fillTs =>
    refine ⟨?_, ?_⟩
    · simp [Liquidity.exceeded, volumeLimit]
    · simp [Liquidity.grant, planned]
  | expired reason =>
    refine ⟨?_, ?_⟩
    · simp [Liquidity.exceeded, volumeLimit]
    · simp [Liquidity.grant, planned]
  | pending =>
    refine ⟨?_, ?_⟩
    · simp [Liquidity.exceeded, volumeLimit]
    · simp [Liquidity.grant, planned]

theorem exceeded_iff {state : Liquidity} {item : Prepared} {lane : Lane}
    (inside : lane.holds item = true) :
    state.exceeded item ↔ ∃ bound ∈ volumeLimit item,
      bound < state.used lane.ticker lane.direction + planned item := by
  obtain ⟨ticker, direction⟩ := holds_iff.mp inside
  rw [Liquidity.exceeded, ticker, direction]

/-- A refusal is final. -/
theorem grant_refused_mono (items : List Prepared) (state : Liquidity) {id : OrderId}
    (refused : id ∈ state.refused) : id ∈ (items.foldl Liquidity.grant state).refused := by
  refine foldl_invariant (fun state : Liquidity => id ∈ state.refused) ?_ refused
  intro item _ state member
  by_cases exceeded : state.exceeded item
  · rw [((grant_step state item (laneOf 0 item.1)).1 exceeded).2]
    exact .tail _ member
  · rw [((grant_step state item (laneOf 0 item.1)).2 exceeded).1]
    exact member

/-- Orders of a lane that the pass does not refuse are granted by the lane's allocation. -/
theorem kept_granted (lane : Lane) (items : List Prepared) (state : Liquidity) :
    ((items.filter lane.holds).filter fun item =>
        item.1.orderId ∉ (items.foldl Liquidity.grant state).refused).Sublist
      (granted planned volumeLimit (state.used lane.ticker lane.direction)
        (items.filter lane.holds)) := by
  induction items generalizing state with
  | nil => exact .slnil
  | cons item rest ih =>
    have later := ih (state.grant item)
    rw [List.foldl_cons]
    obtain ⟨refusal, grant⟩ := grant_step state item lane
    by_cases inside : lane.holds item = true
    · rw [List.filter_cons_of_pos inside, granted]
      by_cases exceeded : state.exceeded item
      · obtain ⟨used, refused⟩ := refusal exceeded
        have final : item.1.orderId ∈ (rest.foldl Liquidity.grant (state.grant item)).refused :=
          grant_refused_mono rest _ (by simp [refused])
        rw [List.filter_cons_of_neg (by simp [final]), if_pos ((exceeded_iff inside).mp exceeded)]
        rwa [used] at later
      · have used := (grant exceeded).2
        rw [if_pos inside] at used
        rw [if_neg (mt (exceeded_iff inside).mpr exceeded)]
        rw [used] at later
        by_cases kept : item.1.orderId ∉ (rest.foldl Liquidity.grant (state.grant item)).refused
        · rw [List.filter_cons_of_pos (by simpa using kept)]
          exact later.cons_cons item
        · rw [List.filter_cons_of_neg (by simpa using kept)]
          exact later.cons item
    · rw [List.filter_cons_of_neg inside]
      have used : (state.grant item).used lane.ticker lane.direction =
          state.used lane.ticker lane.direction := by
        by_cases exceeded : state.exceeded item
        · rw [(refusal exceeded).1]
        · rw [(grant exceeded).2, if_neg inside]
      rwa [used] at later

/-- An order that keeps waiting, as it is read next. -/
def waitingRow (row : PendingRow) : PendingRow :=
  { row with stateReason := waitingReasons row.stateReason }

/-- An order that waited before and still does. -/
def Resumes (old row : PendingRow) : Prop := row = old ∨ row = waitingRow old

theorem waitingReasons_idempotent (reasons : List Reason) :
    waitingReasons (waitingReasons reasons) = waitingReasons reasons := by
  unfold waitingReasons
  by_cases waited : reasons.contains .barMissing
  · simp only [if_pos waited]
  · rw [if_neg waited, if_pos (by simp)]

theorem waiting_waiting (row : PendingRow) : waitingRow (waitingRow row) = waitingRow row := by
  simp [waitingRow, waitingReasons_idempotent]

theorem waitingReasons_contains {reasons : List Reason} {reason : Reason}
    (other : reason ≠ .barMissing) :
    (waitingReasons reasons).contains reason = reasons.contains reason := by
  unfold waitingReasons
  split
  · rfl
  · simp [other]

theorem penaltyBps_waiting (row : PendingRow) : penaltyBps (waitingRow row) = penaltyBps row := by
  have buyIn : (waitingRow row).stateReason.contains .buyIn = row.stateReason.contains .buyIn :=
    waitingReasons_contains (by decide)
  have marginCall : (waitingRow row).stateReason.contains .marginCall =
      row.stateReason.contains .marginCall := waitingReasons_contains (by decide)
  simp only [penaltyBps, buyIn, marginCall]

theorem fillAttempt_waiting (world : World zone) (account : Account) (row : PendingRow)
    (day : Int) : fillAttempt world account (waitingRow row) day = fillAttempt world account row day := by
  have penalty := penaltyBps_waiting row
  obtain ⟨orderId, ticker, side, qty, signalDate, orderType, executable, limitPx, sessionDate,
    receivedAt, contingentOn, stateReason, limited⟩ := row
  unfold fillAttempt
  dsimp only
  rw [penalty]
  rfl

/-- Accounts whose orders are attempted alike. -/
structure SameAttempts (before after : Account) : Prop where
  source : after.settings.priceSource = before.settings.priceSource
  profile : after.executionProfile = before.executionProfile

theorem SameAttempts.of_administration {before after : Account}
    (same : after.administration = before.administration) : SameAttempts before after :=
  ⟨congrArg (fun kept => kept.settings.priceSource) same,
    congrArg Administration.executionProfile same⟩

theorem fillAttempt_congr {before after : Account} (same : SameAttempts before after)
    (world : World zone) (row : PendingRow) (day : Int) :
    fillAttempt world after row day = fillAttempt world before row day := by
  unfold fillAttempt
  rw [same.source, same.profile]

/-- An order as a session prepares it. -/
def prepared (world : World zone) (account : Account) (day : Int) (row : PendingRow) : Prepared :=
  (prepareOrder world row day, fillAttempt world account (prepareOrder world row day) day)

theorem planned_resumes {world : World zone} {account : Account} {day : Int} {old row : PendingRow}
    (resumes : Resumes old row) :
    planned (prepared world account day row) = planned (prepared world account day old) := by
  rcases resumes with rfl | rfl
  · rfl
  · unfold prepared
    have same : prepareOrder world (waitingRow old) day = waitingRow (prepareOrder world old day) := rfl
    rw [same, fillAttempt_waiting]
    rfl

theorem volumeLimit_resumes {world : World zone} {account : Account} {day : Int}
    {old row : PendingRow} (resumes : Resumes old row) :
    volumeLimit (prepared world account day row) = volumeLimit (prepared world account day old) := by
  rcases resumes with rfl | rfl
  · rfl
  · unfold prepared
    have same : prepareOrder world (waitingRow old) day = waitingRow (prepareOrder world old day) :=
      rfl
    rw [same, fillAttempt_waiting]
    rfl

theorem planned_nonneg (world : World zone) (account : Account) (day : Int) (row : PendingRow) :
    0 ≤ planned (prepared world account day row) := by
  unfold planned prepared
  split
  · rename_i terms filled
    have priced := fillAttempt_filled filled
    exact mul_nonneg priced.traded.le priced.referenced.le
  · exact le_rfl

/-- An order sees a limit, or it found no price. -/
def Sees (bound : ℚ) (item : Prepared) : Prop :=
  volumeLimit item = some bound ∨ volumeLimit item = none ∧ planned item = 0

theorem prepared_sees {world : World zone} {account : Account} {day : Int}
    {row : PendingRow} {volume : ℚ}
    (median : world.market.medianDollarVolume account.settings.priceSource row.ticker day
      (some world.now) = some volume) :
    Sees (volume / 100 + 1 / 10 ^ 9) (prepared world account day row) := by
  unfold Sees volumeLimit planned
  cases filled : (prepared world account day row).2 with
  | filled terms =>
    have priced := fillAttempt_filled filled
    left
    dsimp only
    rw [priced.volume]
    exact congrArg (Option.map _) median
  | rejected reason fillTs => exact .inr ⟨rfl, rfl⟩
  | expired reason => exact .inr ⟨rfl, rfl⟩
  | pending => exact .inr ⟨rfl, rfl⟩

/-- What an order that counts still plans for a lane. -/
def plannedWeight (world : World zone) (account : Account) (lane : Lane)
    (counts : Int ×ₗ Nat → Bool) (id : OrderId) (order : Order) : ℚ :=
  match pendingRow id order with
  | some row =>
    if due row lane.session && lane.carries row && counts (receiptKey row) then
      planned (prepared world account lane.session row)
    else 0
  | none => 0

/-- What the waiting orders of an account that count plan for a lane. -/
def Account.awaiting (account : Account) (world : World zone) (lane : Lane)
    (counts : Int ×ₗ Nat → Bool) : ℚ :=
  total (plannedWeight world account lane counts) account.orders

theorem plannedWeight_nonneg (world : World zone) (account : Account) (lane : Lane)
    (counts : Int ×ₗ Nat → Bool) (id : OrderId) (order : Order) :
    0 ≤ plannedWeight world account lane counts id order := by
  unfold plannedWeight
  split
  · split
    · exact planned_nonneg _ _ _ _
    · exact le_rfl
  · exact le_rfl

/-- The waiting orders are those that the session prepares. -/
theorem awaiting_eq (account : Account) (world : World zone) (lane : Lane)
    (counts : Int ×ₗ Nat → Bool) :
    account.awaiting world lane counts =
      volume planned ((localPrepared world account lane.session).filter fun item =>
        lane.holds item && counts (receiptKey item.1)) := by
  have listed : ∀ rows : List PendingRow,
      volume planned (((rows.filter fun row => due row lane.session).map fun row =>
        (prepareOrder world row lane.session,
          fillAttempt world account (prepareOrder world row lane.session) lane.session)).filter
            fun item => lane.holds item && counts (receiptKey item.1)) =
      (rows.map fun row => if due row lane.session && lane.carries row && counts (receiptKey row)
        then planned (prepared world account lane.session row) else 0).sum := by
    intro rows
    induction rows with
    | nil => rfl
    | cons row rest ih =>
      have same : ∀ result, lane.holds (prepareOrder world row lane.session, result) =
        lane.carries row := fun _ => rfl
      have key : receiptKey (prepareOrder world row lane.session) = receiptKey row := rfl
      by_cases isDue : due row lane.session = true
      · rw [List.filter_cons, if_pos isDue, List.map_cons, List.filter_cons, same, key,
          List.map_cons, List.sum_cons, ← ih, isDue, Bool.true_and]
        split
        · rfl
        · rw [zero_add]
      · rw [List.filter_cons, if_neg isDue, List.map_cons, List.sum_cons, ← ih]
        simp [isDue]
  unfold localPrepared
  rw [listed]
  unfold Account.pendingRows Account.awaiting total
  rw [((List.perm_insertionSort _ _).map _).sum_eq]
  induction account.orders.entries with
  | nil => rfl
  | cons entry rest ih =>
    rw [List.map_cons, List.sum_cons, ih, List.filterMap_cons]
    unfold plannedWeight
    cases pendingRow entry.1 entry.2 with
    | none => simp
    | some row => rfl

theorem pendingRow_requeued {id : OrderId} {order : Order} {row : PendingRow}
    (pending : pendingRow id order = some row) (reason : List Reason) (stateAt : Int) :
    pendingRow id (order.withState .queued reason stateAt) =
      some { row with stateReason := reason } := by
  unfold pendingRow at pending
  split at pending
  · cases pending
  · rename_i details stored
    split at pending
    · cases pending
      simp [pendingRow, Order.withState, stored, settledStatus]
    · cases pending

theorem pendingRow_closed {id : OrderId} {order : Order} {state : OrderState}
    {reason : List Reason} {stateAt : Int} (closed : state ≠ .queued) :
    pendingRow id (order.withState state reason stateAt) = none := by
  unfold pendingRow Order.withState
  cases order.details with
  | none => rfl
  | some details => simp [closed]

theorem settleOrder_resumes {world : World zone} {session : Session} {account : Account}
    {row pending : PendingRow} {result : FillResult} {outcome : Account × Settled} {order : Order}
    (stored : pendingRow row.orderId order = some pending)
    (reasons : row.stateReason = pending.stateReason)
    (settled : settleOrder world session account row result = .ok outcome) :
    ∃ change, outcome.1.orders = rewriteOrder row.orderId change account.orders ∧
      (pendingRow row.orderId (change order) = none ∨
        pendingRow row.orderId (change order) = some (waitingRow pending)) := by
  obtain ⟨state, reason, written, closed | ⟨rfl, rfl, -⟩ | ⟨rfl, -⟩⟩ := settleOrder_write settled
  · refine ⟨_, written, .inl (pendingRow_closed ?_)⟩
    rcases closed with rfl | rfl | rfl <;> nofun
  · refine ⟨_, written, .inr ?_⟩
    rw [pendingRow_requeued stored, reasons]
    rfl
  · exact ⟨_, written, .inl (pendingRow_closed (by nofun))⟩

/-- A refused order records no fill. -/
theorem settleOrder_refused {world : World zone} {session : Session} {account : Account}
    {row : PendingRow} {result : FillResult} {outcome : Account × Settled}
    (refused : row.orderId ∈ session.refusals)
    (settled : settleOrder world session account row result = .ok outcome) :
    outcome.1.ledger.fills = account.ledger.fills := by
  unfold settleOrder at settled
  split at settled
  · cases settled
    rfl
  · cases settled
    rfl
  · split at settled
    · cases settled
      rfl
    · cases settled
      rfl
    · cases settled
      rfl
    · rw [if_pos refused] at settled
      cases settled
      rfl

/-- The holding leaves at most what was requested. -/
theorem sizedPreflight_atMost {world : World zone} {session : Session} {account : Account}
    {row : PendingRow} {requested qty : ℚ}
    (goes : sizedPreflight world session account row requested = .go qty) : qty ≤ requested := by
  have available : availableCloseQuantity account row.ticker row.side requested ≤ requested := by
    unfold availableCloseQuantity
    cases row.side with
    | sell => exact min_le_left _ _
    | cover => exact min_le_left _ _
    | buy => exact le_rfl
    | short => exact le_rfl
  unfold sizedPreflight at goes
  dsimp only at goes
  split at goes
  · cases goes
  · split at goes
    · cases goes
    · cases goes
      exact available

/-- What is left after the checks is at most what was asked. -/
theorem preflight_atMost {world : World zone} {session : Session} {account : Account}
    {row : PendingRow} {qty : ℚ} (ready : preflight world session account row = .go qty) :
    qty ≤ row.qty := by
  unfold preflight at ready
  split at ready
  · cases ready
  · split at ready
    · cases ready
    · split at ready
      · cases ready
      · split at ready
        · cases ready
        · split at ready <;> cases ready
        · exact (sizedPreflight_atMost ready).trans (min_le_left _ _)
        · exact sizedPreflight_atMost ready

theorem sizeFill_atMost {session : Session} {account : Account} {row : PendingRow}
    {terms : FillTerms} {sized : Sized}
    (sizing : sizeFill session account row terms = .ok (some sized)) : sized.qty ≤ row.qty := by
  have clamped : ∀ fee, cashQuantity account row.side row.qty terms.fillPx fee ≤ row.qty := by
    intro fee
    unfold cashQuantity
    split
    · exact le_rfl
    · exact min_le_left _ _
  unfold sizeFill at sizing
  dsimp only at sizing
  split at sizing
  · cases sizing
  · split at sizing
    · cases sizing
    · split at sizing
      · cases sizing
        exact le_rfl
      · split at sizing
        · cases sizing
        · cases sizing
          exact clamped _

theorem Execution.atMost {world : World zone} {session : Session} {account : Account}
    {row : PendingRow} {terms : FillTerms} (execution : Execution world session account row terms) :
    execution.applied.qty ≤ row.qty := by
  have sized := sizeFill_atMost execution.sizing
  rcases applyFill_cases execution.filled with ⟨_, rejected⟩ | ⟨qty, _, _, _, quantity, _, traded⟩
  · have nothing := execution.traded
    rw [rejected] at nothing
    exact absurd nothing (lt_irrefl _)
  · rw [traded]
    exact (fillQty_traded quantity).atMost.trans sized

/-- What an order takes from a lane that it does not count for, in its own session. -/
def Lane.cost (lane : Lane) (counts : Int ×ₗ Nat → Bool) (session : Session) : Item → ℚ
  | .execute row result =>
    if session.day = lane.session ∧ lane.carries row = true ∧ counts (receiptKey row) = false ∧
        row.orderId ∉ session.refusals then planned (row, result) else 0
  | _ => 0

/-- What an account took and still plans for a lane grows by the orders that do not
count only. -/
theorem settleOrder_effort {world : World zone} {session : Session} {account : Account}
    {row pending : PendingRow} {result : FillResult} {outcome : Account × Settled} {order : Order}
    (lane : Lane) (counts : Int ×ₗ Nat → Bool)
    (found : account.orders.lookup row.orderId = some order)
    (stored : pendingRow row.orderId order = some pending) (isDue : due pending session.day = true)
    (prepare : row = prepareOrder world pending session.day)
    (attempted : result = fillAttempt world account row session.day)
    (settled : settleOrder world session account row result = .ok outcome) :
    outcome.1.taken lane + outcome.1.awaiting world lane counts ≤
      account.taken lane + account.awaiting world lane counts +
        lane.cost counts session (.execute row result) := by
  have reasons : row.stateReason = pending.stateReason := by rw [prepare]; rfl
  have item : (row, result) = prepared world account session.day pending := by
    rw [attempted, prepare]
    rfl
  have nonneg : 0 ≤ planned (row, result) := item ▸ planned_nonneg _ _ _ _
  have costs : 0 ≤ lane.cost counts session (.execute row result) := by
    simp only [Lane.cost]
    split
    · exact nonneg
    · exact le_rfl
  obtain ⟨change, written, read⟩ := settleOrder_resumes stored reasons settled
  -- The administration stays, so the waiting orders are weighed as before.
  have weighed : outcome.1.awaiting world lane counts =
      total (plannedWeight world account lane counts) outcome.1.orders := by
    refine total_congr fun entry _ => ?_
    unfold plannedWeight prepared
    simp only [fillAttempt_congr (.of_administration (settleOrder_administration settled))]
  have exchanged : ∀ change : Order → Order,
      outcome.1.orders = rewriteOrder row.orderId change account.orders →
      outcome.1.awaiting world lane counts +
        plannedWeight world account lane counts row.orderId order =
      plannedWeight world account lane counts row.orderId (change order) +
        account.awaiting world lane counts := by
    intro change written
    rw [weighed, written]
    exact total_rewrite _ change found
  have own : plannedWeight world account lane counts row.orderId order =
      if due pending lane.session && lane.carries pending && counts (receiptKey pending) then
        planned (prepared world account lane.session pending) else 0 := by
    simp [plannedWeight, stored]
  have lighter : plannedWeight world account lane counts row.orderId (change order) ≤
      plannedWeight world account lane counts row.orderId order := by
    rcases read with gone | waits
    · have weightless : plannedWeight world account lane counts row.orderId (change order) = 0 := by
        simp [plannedWeight, gone]
      rw [weightless]
      exact plannedWeight_nonneg _ _ _ _ _ _
    · rw [own, plannedWeight, waits]
      dsimp only
      rw [planned_resumes (.inr rfl)]
      exact le_rfl
  have idle : outcome.1.ledger.fills = account.ledger.fills →
      outcome.1.taken lane + outcome.1.awaiting world lane counts ≤
        account.taken lane + account.awaiting world lane counts +
          lane.cost counts session (.execute row result) := by
    intro same
    have taken : outcome.1.taken lane = account.taken lane := by
      unfold Account.taken existingNotional
      rw [same]
    have balance := exchanged change written
    linarith
  by_cases refused : row.orderId ∈ session.refusals
  · exact idle (settleOrder_refused refused settled)
  · obtain ⟨-, same⟩ | ⟨qty, terms, flagged, ready, priced, execution, -, fills, filled⟩ :=
      settleOrder_books settled
    · exact idle same
    · have unfilled := execution.unfilled
      rw [afterPdt_ledger] at unfilled
      have reference : 0 < terms.referencePx :=
        (fillAttempt_filled (attempted.symm.trans priced)).referenced
      have atMost : execution.applied.qty * terms.referencePx ≤ planned (row, result) := by
        rw [priced]
        exact mul_le_mul_of_nonneg_right (execution.atMost.trans (preflight_atMost ready))
          reference.le
      have traded : 0 ≤ execution.applied.qty * terms.referencePx :=
        mul_nonneg execution.traded.le reference.le
      have taken : outcome.1.taken lane = (if session.day = lane.session ∧ row.ticker = lane.ticker ∧
          buying row.side = lane.direction then |execution.applied.qty * terms.referencePx| else 0) +
          account.taken lane := by
        unfold Account.taken existingNotional
        rw [fills, total_insert_new _ _ unfilled]
        rfl
      have balance := exchanged _ filled
      have weightless : plannedWeight world account lane counts row.orderId
          (order.withState .filled row.stateReason world.now) = 0 := by
        rw [plannedWeight, pendingRow_closed (by nofun)]
      rw [weightless, zero_add, own] at balance
      by_cases inside : session.day = lane.session ∧ row.ticker = lane.ticker ∧
          buying row.side = lane.direction
      · have carried : lane.carries row = true := by simp [Lane.carries, inside]
        have key : receiptKey row = receiptKey pending := by rw [prepare]; rfl
        have carriedBefore : lane.carries pending = true := by
          rw [prepare] at carried
          exact carried
        rw [if_pos inside, abs_of_nonneg traded] at taken
        rw [← inside.1, isDue, carriedBefore, ← item, ← key] at balance
        simp only [Lane.cost, inside.1, carried, refused, not_false_eq_true, and_true, true_and]
        cases counted : counts (receiptKey row) with
        | false =>
          simp only [counted, Bool.and_false, Bool.false_eq_true, if_false] at balance
          simp only [if_true]
          linarith
        | true =>
          simp only [counted, Bool.and_self, if_true] at balance
          simp only [Bool.true_eq_false, if_false]
          linarith
      · rw [if_neg inside, zero_add] at taken
        rw [own] at lighter
        have ownNonneg := plannedWeight_nonneg world account lane counts row.orderId order
        rw [own] at ownNonneg
        linarith

/-- What an account took from a lane and what its orders that count still plan for it. -/
def Account.stake (account : Account) (world : World zone) (lane : Lane)
    (counts : Int ×ₗ Nat → Bool) : ℚ :=
  account.taken lane + account.awaiting world lane counts

/-- An entry raises the stake by its cost at most. -/
theorem applyItem_effort {world : World zone} {settings : AccountSettings} {begun : Account}
    {day : Int} {sequence : List Event} (lane : Lane) (counts : Int ×ₗ Nat → Bool)
    {visit : Account × Item} (visited : visit ∈ sessionVisits world settings begun day sequence)
    {next : Account}
    (applied : applyItem world (openSession world settings begun day) visit.1 visit.2 = .ok next) :
    next.stake world lane counts ≤ visit.1.stake world lane counts +
      lane.cost counts (openSession world settings begun day) visit.2 := by
  obtain ⟨state, item⟩ := visit
  cases executes : item.order with
  | none =>
    have books := applyItem_booksOnly executes applied
    have taken : next.taken lane = state.taken lane := by
      unfold Account.taken existingNotional
      rw [books.fills]
    have awaiting : next.awaiting world lane counts = state.awaiting world lane counts := by
      unfold Account.awaiting
      rw [books.orders]
      refine total_congr fun entry _ => ?_
      unfold plannedWeight prepared
      simp only [fillAttempt_congr (.of_administration books.administration)]
    have free : lane.cost counts (openSession world settings begun day) item = 0 := by
      cases item with
      | execute row result => cases executes
      | _ => rfl
    unfold Account.stake
    rw [taken, awaiting, free, add_zero]
  | some id =>
    cases item with
    | execute row result =>
      obtain ⟨outcome, settled, rfl⟩ := map_ok.mp applied
      obtain ⟨pending, order, found, _, stored, isDue, prepare, attempted⟩ :=
        executing_order visited
      have same : state.administration = begun.administration := by
        refine visitedM_invariant (fun account => account.administration = begun.administration)
          ?_ rfl (state, Item.execute row result) visited
        intro inner _ after kept ran
        rw [applyItem_administration ran, kept]
      rw [← fillAttempt_congr (.of_administration same)] at attempted
      exact settleOrder_effort lane counts found stored isDue prepare attempted settled
    | _ => cases executes

/-- The local orders of a lane that a session neither counts nor refuses. -/
def uncounted (world : World zone) (settings : AccountSettings) (account : Account) (lane : Lane)
    (counts : Int ×ₗ Nat → Bool) : List Prepared :=
  ((localPrepared world account lane.session).filter lane.holds).filter fun item =>
    !counts (receiptKey item.1) &&
      decide (item.1.orderId ∉ (openSession world settings account lane.session).refusals)

/-- A session raises the stake in its own lanes only, by what its uncounted orders planned. -/
theorem foldSession_effort {world : World zone} {settings : AccountSettings}
    {account next : Account} {day : Int} (lane : Lane) (counts : Int ×ₗ Nat → Bool)
    (folded : foldSession world settings account day = .ok next) :
    next.stake world lane counts ≤ account.stake world lane counts +
      if day = lane.session then volume planned (uncounted world settings account lane counts)
      else 0 := by
  obtain ⟨sequence, _, _, ran⟩ := foldSession_ok folded
  have raised := foldlM_cost (fun state => state.stake world lane counts)
    (lane.cost counts (openSession world settings account day))
    (fun visit visited next applied => applyItem_effort lane counts visited applied) ran
  refine raised.trans_eq (congrArg _ ?_)
  have costs : ∀ items : List Prepared,
      ((items.map fun item => Item.execute item.1 item.2).map
        (lane.cost counts (openSession world settings account day))).sum =
      if day = lane.session then volume planned ((items.filter lane.holds).filter fun item =>
        !counts (receiptKey item.1) &&
          decide (item.1.orderId ∉ (openSession world settings account day).refusals)) else 0 := by
    intro items
    by_cases own : day = lane.session
    · rw [if_pos own, List.filter_filter, volume_filter_ite, List.map_map]
      refine congrArg List.sum (List.map_congr_left fun item _ => ?_)
      have session : (openSession world settings account day).day = lane.session := own
      simp only [Function.comp_apply, Lane.cost, Lane.holds, session, true_and, Bool.and_eq_true,
        Bool.not_eq_true', decide_eq_true_eq]
      exact if_congr (by tauto) rfl rfl
    · rw [if_neg own, List.map_map]
      refine List.sum_eq_zero ?_
      intro cost listed
      obtain ⟨item, _, rfl⟩ := List.mem_map.mp listed
      have session : (openSession world settings account day).day ≠ lane.session := own
      simp [Lane.cost, session]
  unfold sessionItems
  rw [((List.perm_insertionSort _ _).map _).sum_eq, List.map_append, List.sum_append, costs]
  have free : ((((replayed sequence).map Item.recorded ++
      [Item.dividends, Item.borrow, Item.interest]).map
      (lane.cost counts (openSession world settings account day))).sum : ℚ) = 0 := by
    refine List.sum_eq_zero ?_
    intro cost listed
    simp only [List.map_append, List.map_map, List.mem_append, List.mem_map, List.map_cons,
      List.mem_cons] at listed
    obtain ⟨event, _, rfl⟩ | listed := listed
    · rfl
    · simpa [Lane.cost] using listed
  rw [free, zero_add]
  by_cases own : day = lane.session
  · subst own
    rfl
  · simp [own]

/-- What a session asks for, in the order of receipt. -/
def asked (world : World zone) (account : Account) (day : Int) : List Prepared :=
  (localPrepared world account day ++ world.foreignDue day).insertionSort fun a b =>
    (toLex (a.1.receivedAt, a.1.orderId) : Int ×ₗ Nat) ≤ toLex (b.1.receivedAt, b.1.orderId)

/-- What all accounts took from a lane when one of them is folded. -/
def used (world : World zone) (account : Account) (lane : Lane) : ℚ :=
  account.taken lane + world.foreignNotional lane.session lane.ticker lane.direction

/-- The pass starts from what all accounts took. -/
def beforePass (world : World zone) (account : Account) (day : Int) : Liquidity :=
  ⟨fun ticker direction => existingNotional account day ticker direction +
    world.foreignNotional day ticker direction, []⟩

theorem openSession_refusals (world : World zone) (settings : AccountSettings) (account : Account)
    (day : Int) : (openSession world settings account day).refusals =
      ((asked world account day).foldl Liquidity.grant (beforePass world account day)).refused :=
  rfl

theorem asked_perm (world : World zone) (account : Account) (day : Int) :
    (asked world account day).Perm (localPrepared world account day ++ world.foreignDue day) :=
  List.perm_insertionSort _ _

theorem kept_sublist (world : World zone) (settings : AccountSettings) (account : Account)
    (lane : Lane) :
    (((asked world account lane.session).filter lane.holds).filter fun item =>
      decide (item.1.orderId ∉ (openSession world settings account lane.session).refusals)).Sublist
    (granted planned volumeLimit (used world account lane)
      ((asked world account lane.session).filter lane.holds)) := by
  rw [openSession_refusals]
  exact kept_granted lane _ _

section OneSession

variable {world : World zone} (settings : AccountSettings) {account : Account} {lane : Lane}
  {bound : ℚ}
  (nonneg : ∀ item ∈ world.foreignDue lane.session, 0 ≤ planned item)

include nonneg

theorem asked_nonneg : ∀ item ∈ asked world account lane.session, 0 ≤ planned item := by
  intro item member
  rcases List.mem_append.mp ((asked_perm world account lane.session).subset member) with own | other
  · obtain ⟨row, _, rfl⟩ := List.mem_map.mp own
    exact planned_nonneg world account lane.session row
  · exact nonneg item other

/-- The account's own orders are among those that the session asks for. -/
theorem uncounted_le (counts : Int ×ₗ Nat → Bool)
    (same : ∀ item ∈ localPrepared world account lane.session, lane.holds item = true →
      Sees bound item) :
    volume planned (uncounted world settings account lane counts) ≤
      volume planned (((granted planned volumeLimit (used world account lane)
        ((asked world account lane.session).filter lane.holds)).filter fun item =>
          decide (volumeLimit item = some bound)).filter fun item => !counts (receiptKey item.1)) := by
  let picked : List Prepared → List Prepared := fun items =>
    (((items.filter lane.holds).filter fun item =>
        decide (item.1.orderId ∉ (openSession world settings account lane.session).refusals)).filter
      fun item => decide (volumeLimit item = some bound)).filter fun item =>
        !counts (receiptKey item.1)
  have own : volume planned (uncounted world settings account lane counts) =
      volume planned (picked (localPrepared world account lane.session)) := by
    have zero : ∀ item ∈ uncounted world settings account lane counts,
        decide (volumeLimit item = some bound) = false → planned item = 0 := by
      intro item member unlimited
      have inside := List.mem_filter.mp (List.mem_of_mem_filter member)
      exact ((same item inside.1 inside.2).resolve_left (by simpa using unlimited)).2
    rw [← volume_filter planned zero]
    simp only [picked, uncounted, List.filter_filter]
    exact congrArg (volume planned) (List.filter_congr fun item _ => by
      cases counts (receiptKey item.1) <;> simp [Bool.and_comm])
  have all : volume planned (picked (localPrepared world account lane.session)) ≤
      volume planned (picked (localPrepared world account lane.session ++
        world.foreignDue lane.session)) := by
    simp only [picked, List.filter_append, volume_append]
    refine le_add_of_nonneg_right (volume_nonneg fun item member => ?_)
    simp only [List.mem_filter] at member
    exact nonneg item member.1.1.1.1
  have sorted : volume planned (picked (asked world account lane.session)) =
      volume planned (picked (localPrepared world account lane.session ++
        world.foreignDue lane.session)) :=
    volume_perm planned (((((asked_perm world account lane.session).filter _).filter _).filter
      _).filter _)
  rw [own]
  refine all.trans ?_
  rw [← sorted]
  refine volume_le_of_sublist (((kept_sublist world settings account lane).filter _).filter _) ?_
  intro item member
  have granted := (granted_sublist planned volumeLimit _ _).subset
    (List.mem_of_mem_filter (List.mem_of_mem_filter member))
  exact asked_nonneg nonneg item (List.mem_of_mem_filter granted)

theorem session_within
    (same : ∀ item ∈ localPrepared world account lane.session, lane.holds item = true →
      Sees bound item) :
    used world account lane +
      volume planned (uncounted world settings account lane fun _ => false) ≤
        max (used world account lane) bound := by
  have granted := granted_within (fun item : Prepared => decide (volumeLimit item = some bound))
    ((asked world account lane.session).filter lane.holds) (used world account lane)
    (fun item member => asked_nonneg nonneg item (List.mem_of_mem_filter member))
    (fun item _ limited => by simpa using limited)
  refine le_trans (add_le_add_right ?_ _) granted
  refine (uncounted_le settings nonneg _ same).trans_eq ?_
  simp

theorem session_full
    (full : bound < used world account lane) {item : Prepared}
    (listed : item ∈ localPrepared world account lane.session) (inside : lane.holds item = true)
    (limited : volumeLimit item = some bound) :
    item.1.orderId ∈ (openSession world settings account lane.session).refusals := by
  by_contra kept
  have none := granted_none (fun item : Prepared => decide (volumeLimit item = some bound))
    ((asked world account lane.session).filter lane.holds) (used world account lane)
    (fun item member => asked_nonneg nonneg item (List.mem_of_mem_filter member))
    (fun item _ limited => by simpa using limited) full
  have member : item ∈ (asked world account lane.session).filter lane.holds :=
    List.mem_filter.mpr ⟨(asked_perm world account lane.session).symm.subset
      (List.mem_append_left _ listed), inside⟩
  have granted := (kept_sublist world settings account lane).subset
    (List.mem_filter.mpr ⟨member, by simpa using kept⟩)
  exact List.filter_eq_nil_iff.mp none item granted (decide_eq_true limited)

end OneSession

end TradingEngine.Accounts
