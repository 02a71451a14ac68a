import TradingEngine.BookFrames

/-!
# What calls do to orders

Every call writes order rows in one of a few ways: settlement closes a queued
order or notes that its bar is missing, a cancellation takes a pending order, and
new orders are queued by an intent or by the engine itself. Three writes are
loose: they leave the two tables of an order in disagreement. A law about the
order table that all writes respect holds after every call.
-/

namespace TradingEngine.Accounts

open KeyedTables OrderTypes Nyse Ledger Costs Fills Runs

variable {zone : Zone}

/-- Pending in the order table and queued in the details. -/
def Queued (order : Order) : Prop :=
  order.status = .pending ∧ ∃ details, order.details = some details ∧ details.state = .queued

variable {id : OrderId}

theorem pendingRow_queued {order : Order} {row : PendingRow}
    (pending : pendingRow id order = some row) : Queued order := by
  unfold pendingRow at pending
  split at pending
  · cases pending
  · rename_i details stored
    split at pending
    · rename_i queued
      exact ⟨queued.1, details, stored, queued.2⟩
    · cases pending

/-- The reasons of an order whose bar is still missing. -/
def waitingReasons (reasons : List Reason) : List Reason :=
  if reasons.contains .barMissing then reasons else reasons ++ [.barMissing]

theorem waitingReasons_forces (reasons : List Reason) :
    (waitingReasons reasons).any Reason.forces = reasons.any Reason.forces := by
  unfold waitingReasons
  split
  · rfl
  · simp [Reason.forces]

/-- The writes of an existing row. Loose ones are left out of a strict account. -/
inductive Write (strict : Bool) : Order → Order → Prop where
  | settled {order : Order} {state : OrderState} (reason : List Reason) (stateAt : Int)
      (queued : Queued order) (closes : state = .filled ∨ state = .rejected ∨ state = .cancelled) :
      Write strict order (order.withState state reason stateAt)
  | waited {order : Order} {details : OrderDetails} (stateAt : Int) (queued : Queued order)
      (stored : order.details = some details) :
      Write strict order (order.withState .queued (waitingReasons details.stateReason) stateAt)
  | cancelled {order : Order} (reason : Reason) (stateAt : Int) (pending : order.status = .pending) :
      Write strict order (order.cancel reason stateAt)
  | lapsed {order : Order} (reason : Reason) (stateAt : Int) (queued : Queued order)
      (loose : strict = false) : Write strict order (order.withState .expired [reason] stateAt)
  | stale {order : Order} (reason : Reason) (pending : order.status = .pending)
      (loose : strict = false ∨ order.details = none) :
      Write strict order { order with status := .cancelled, rejectReason := [reason] }
  | swept {order : Order} (ticker : Ticker) (effective now : Int) (planned : List OrderId)
      (id : OrderId) (owned : id ∈ planned → order.ticker = ticker) (loose : strict = false) :
      Write strict order (settleCancel ticker effective now planned id order)

/-- New rows: the engine's own reductions, stamped with their session's close when they wait
for the next open, and, where intents are taken in, theirs. -/
inductive NewOrder (intake : Bool) : Order → Prop where
  | forced (ticker : Ticker) (side : Side) (qty : ℚ) (orderType : OrderTypes.OrderType)
      (unlimited : orderType ≠ .limit) (sessionDate receivedAt : Int) (reason : Reason)
      (closing : side.closing = true) (forces : reason.forces = true)
      (auction : orderType = .nextOpen ∨ orderType = .moc)
      (received : orderType = .nextOpen → ∃ zone : Zone, receivedAt = closed zone sessionDate) :
      NewOrder intake
        (forcedOrder ticker side qty orderType unlimited sessionDate receivedAt reason)
  | entered (intent : Intent) (parent : Option OrderId) (now : Int)
      (limited : intent.orderType = .limit → intent.limitPrice.isSome)
      (session : isSession intent.sessionDate = true) (accepting : intake = true) :
      NewOrder intake (intentOrder intent parent now limited)

/-- A property of the order table that writes and new rows respect. -/
structure OrderLaw (strict intake : Bool) (law : Table OrderId Order → Prop) : Prop where
  rewritten : ∀ orders change, law orders →
    (∀ id order, orders.lookup id = some order →
      change id order = order ∨ Write strict order (change id order)) →
    law (mapRows change orders)
  inserted : ∀ orders id order, law orders → orders.lookup id = none →
    NewOrder intake order →
    law (orders.insert id order)

namespace OrderLaw

variable {strict intake : Bool} {law : Table OrderId Order → Prop}

theorem rewriteOrder (lawful : OrderLaw strict intake law) {orders : Table OrderId Order} {id : OrderId}
    {change : Order → Order} (holds : law orders)
    (write : ∀ order, orders.lookup id = some order → Write strict order (change order)) :
    law (rewriteOrder id change orders) := by
  refine lawful.rewritten _ _ holds ?_
  intro key order found
  by_cases same : key = id
  · subst same
    exact .inr (by simpa using write order found)
  · exact .inl (by simp [same])

theorem cancelWhere (lawful : OrderLaw strict intake law) {orders : Table OrderId Order}
    (selected : Order → Bool) {reason : Reason} {now : Int} (holds : law orders)
    (pending : ∀ order, selected order = true → order.status = .pending) :
    law (cancelWhere selected reason now orders) := by
  refine lawful.rewritten _ _ holds ?_
  intro key order _
  by_cases hit : selected order = true
  · exact .inr (by simpa [hit] using Write.cancelled reason now (pending order hit))
  · exact .inl (by simp [hit])

/-- A property that every row has is a law when writes keep it and new rows have it. -/
theorem everyRow {sound : Order → Prop}
    (write : ∀ order next, Write strict order next → sound order → sound next)
    (new : ∀ order, NewOrder intake order → sound order) :
    OrderLaw strict intake fun orders => ∀ id order, orders.lookup id = some order → sound order where
  rewritten := by
    intro orders change holds writes id order found
    rw [lookup_mapRows, Option.map_eq_some_iff] at found
    obtain ⟨old, stored, rfl⟩ := found
    rcases writes id old stored with same | written
    · rw [same]
      exact holds id old stored
    · exact write old _ written (holds id old stored)
  inserted := by
    intro orders id order holds _ fresh other row found
    by_cases same : other = id
    · subst same
      rw [AList.lookup_insert, Option.some.injEq] at found
      exact found ▸ new order fresh
    · rw [AList.lookup_insert_ne same] at found
      exact holds other row found

theorem oneRow (id : OrderId) {sound : Order → Prop}
    (write : ∀ order next, Write strict order next → sound order → sound next) :
    OrderLaw strict intake fun orders => ∃ order, orders.lookup id = some order ∧ sound order where
  rewritten := by
    rintro orders change ⟨order, found, holds⟩ writes
    refine ⟨change id order, by rw [lookup_mapRows, found]; rfl, ?_⟩
    rcases writes id order found with same | written
    · rw [same]
      exact holds
    · exact write order _ written holds
  inserted := by
    rintro orders fresh new ⟨order, found, holds⟩ missing _
    have different : id ≠ fresh := by
      rintro rfl
      simp [missing] at found
    exact ⟨order, by rw [AList.lookup_insert_ne different, found], holds⟩

theorem all {ι : Sort*} {laws : ι → Table OrderId Order → Prop}
    (each : ∀ index, OrderLaw strict intake (laws index)) :
    OrderLaw strict intake fun orders => ∀ index, laws index orders where
  rewritten := fun orders change holds writes index =>
    (each index).rewritten orders change (holds index) writes
  inserted := fun orders id order holds missing new index =>
    (each index).inserted orders id order (holds index) missing new

theorem queue (lawful : OrderLaw strict intake law) {account : Account} {sequence : Nat} {order : Order}
    (holds : law account.orders) (new : NewOrder intake order) :
    law (account.queue sequence order).orders :=
  lawful.inserted _ _ _ holds (nextOrderId_missing sequence account.orders) new

end OrderLaw

theorem preflight_stop {world : World zone} {session : Session} {account : Account}
    {row : PendingRow} {state : OrderState} {reason : List Reason}
    (stopped : preflight world session account row = .stop state reason) :
    state = .rejected ∨ state = .cancelled := by
  have sized : ∀ requested, sizedPreflight world session account row requested =
      .stop state reason → state = .rejected := by
    intro requested stops
    unfold sizedPreflight at stops
    dsimp only at stops
    split at stops
    · cases stops
      rfl
    · split at stops
      · cases stops
        rfl
      · cases stops
  unfold preflight at stopped
  split at stopped
  · cases stopped
    exact .inl rfl
  · split at stopped
    · cases stopped
      exact .inl rfl
    · split at stopped
      · cases stopped
        exact .inr rfl
      · split at stopped
        · cases stopped
          exact .inl rfl
        · split at stopped
          · cases stopped
            exact .inl rfl
          · cases stopped
        · exact .inl (sized _ stopped)
        · exact .inl (sized _ stopped)

/-- A settled order is written once, as closed, as waiting or as expired. -/
theorem settleOrder_write {world : World zone} {session : Session} {account : Account}
    {row : PendingRow} {result : FillResult} {outcome : Account × Settled}
    (settled : settleOrder world session account row result = .ok outcome) :
    ∃ state reason, outcome.1.orders =
        rewriteOrder row.orderId (Order.withState state reason world.now) account.orders ∧
      ((state = .filled ∨ state = .rejected ∨ state = .cancelled) ∨
        (state = .queued ∧ reason = waitingReasons row.stateReason ∧
          (preflight world session account row = .wait ∨ result = .pending)) ∨
        (state = .expired ∧ ∃ lapse qty, reason = [lapse] ∧ result = .expired lapse ∧
          preflight world session account row = .go qty)) := by
  cases settleOrder_settlement settled with
  | stopped state reason stopped =>
    rcases preflight_stop stopped with rfl | rfl
    · exact ⟨_, reason, rfl, .inl (.inr (.inl rfl))⟩
    · exact ⟨_, reason, rfl, .inl (.inr (.inr rfl))⟩
  | waited unready =>
    refine ⟨_, _, rfl, .inr (.inl ⟨rfl, rfl, ?_⟩)⟩
    rcases unready with waits | ⟨_, _, undecided⟩
    · exact .inl waits
    · exact .inr undecided
  | unfilled qty reason => exact ⟨_, _, rfl, .inl (.inr (.inl rfl))⟩
  | lapsed qty reason ready expired =>
    exact ⟨_, _, rfl, .inr (.inr ⟨rfl, reason, qty, rfl, expired, ready⟩)⟩
  | refused qty terms flagged reason =>
    exact ⟨.rejected, [reason], by simp [Account.setState], .inl (.inr (.inl rfl))⟩
  | vanished qty terms flagged =>
    refine ⟨.filled, row.stateReason, ?_, .inl (.inl rfl)⟩
    rw [recordPenalty_orders]
    simp [Account.setState]
  | executed qty terms flagged _ _ execution =>
    refine ⟨.filled, row.stateReason, ?_, .inl (.inl rfl)⟩
    rw [recordPenalty_orders]
    simp [Account.setState, Execution.booked, recordFill]

theorem execute_mem_sessionItems {world : World zone} {begun : Account} {day : Int}
    {sequence : List Event} {row : PendingRow} {result : FillResult}
    (listed : Item.execute row result ∈ sessionItems world begun day sequence) :
    ∃ pending ∈ begun.pendingRows, due pending day = true ∧ row = prepareOrder world pending day ∧
      result = fillAttempt world begun row day := by
  unfold sessionItems at listed
  rw [List.mem_insertionSort] at listed
  simp only [List.mem_append, List.mem_map, List.mem_cons, List.not_mem_nil, or_false,
    reduceCtorEq, and_false, exists_false, false_or, Item.execute.injEq, localPrepared,
    List.mem_filter] at listed
  obtain ⟨prepared, ⟨pending, ⟨inside, isDue⟩, rfl⟩, rfl, rfl⟩ := listed
  exact ⟨pending, inside, isDue, rfl, rfl⟩

/-- In its turn an order is pending, queued and as the session found it. -/
theorem executing_order {world : World zone} {settings : AccountSettings} {begun : Account}
    {day : Int} {sequence : List Event} {state : Account} {row : PendingRow} {result : FillResult}
    (visited : (state, Item.execute row result) ∈
      sessionVisits world settings begun day sequence) :
    ∃ pending order, state.orders.lookup row.orderId = some order ∧
      begun.orders.lookup row.orderId = some order ∧
      pendingRow row.orderId order = some pending ∧ due pending day = true ∧
      row = prepareOrder world pending day ∧ result = fillAttempt world begun row day := by
  obtain ⟨pending, inside, isDue, prepared, attempted⟩ :=
    execute_mem_sessionItems (visitedM_mem _ visited)
  obtain ⟨order, found, stored⟩ := mem_pendingRows.mp inside
  have id : row.orderId = pending.orderId := by rw [prepared]; rfl
  have untouched := sessionVisits_untouched _ visited row.orderId rfl
  refine ⟨pending, order, ?_, ?_, ?_, isDue, prepared, attempted⟩
  · rw [untouched, id, found]
  · rw [id, found]
  · rw [id, stored]

theorem pendingRow_stateReason {order : Order} {row : PendingRow}
    (pending : pendingRow id order = some row) :
    ∃ details, order.details = some details ∧ details.stateReason = row.stateReason := by
  unfold pendingRow at pending
  split at pending
  · cases pending
  · rename_i details stored
    split at pending
    · cases pending
      exact ⟨details, stored, rfl⟩
    · cases pending

/-- Whether a turn lets a priced order expire. -/
def Turn.lapses (world : World zone) (turn : Turn) : Bool :=
  match turn.item with
  | .execute row (.expired _) =>
    match preflight world turn.session turn.account row with
    | .go _ => true
    | _ => false
  | _ => false

theorem finalizeRetirement_orders (world : World zone) (account : Account) :
    (finalizeRetirement world account).orders = account.orders := by
  unfold finalizeRetirement
  split <;> rfl

theorem mem_pendingOf {account : Account} {ticker : Ticker} :
    id ∈ pendingOf account ticker ↔
      ∃ order, account.orders.lookup id = some order ∧ order.ticker = ticker ∧
        order.status = .pending := by
  unfold pendingOf
  simp only [List.mem_map, List.mem_filter, Bool.and_eq_true, decide_eq_true_eq]
  constructor
  · rintro ⟨row, ⟨listed, ticker, pending⟩, rfl⟩
    exact ⟨row.2, lookup_of_mem listed, ticker, pending⟩
  · rintro ⟨order, found, ticker, pending⟩
    exact ⟨⟨id, order⟩, ⟨mem_of_lookup found, ticker, pending⟩, rfl⟩

/-- A settlement that plans its cancellations from the same table cancels the pending
orders of the instrument in both tables. -/
theorem settleCancel_planned {account : Account} {ticker : Ticker} {effective now : Int}
    {order : Order} (found : account.orders.lookup id = some order) :
    settleCancel ticker effective now (pendingOf account ticker) id order =
      if order.ticker = ticker ∧ order.status = .pending then
        order.cancel (.settlement effective) now
      else order := by
  have planned : id ∈ pendingOf account ticker ↔ order.ticker = ticker ∧ order.status = .pending := by
    rw [mem_pendingOf, found]
    simp
  unfold settleCancel Order.cancel
  by_cases hit : order.ticker = ticker ∧ order.status = .pending
  · simp [planned, hit]
  · have missed : (decide (order.ticker = ticker) && decide (order.status = .pending)) = false := by
      simpa using hit
    simp [planned, hit, missed]

theorem recordSettlement_orders {world : World zone} {terms : Terms} {account next : Account}
    (recorded : recordSettlement world terms account = .ok next) :
    next.orders = account.orders := by
  rw [(recordSettlement_ok recorded).2]

/-- The turns of a fold behind its mutation. -/
def mutatedTurns (world : World zone) (account : Account) (stop : Int)
    (mutation : Account → Except AccountError Account) : List Turn :=
  match mutation account with
  | .ok changed => foldTurns world changed stop
  | .error _ => []

/-- The turns of a call that folds, with the world that it sees. -/
def foldedTurns (account : Account) : Operation zone → Option (World zone × List Turn)
  | .settle world day =>
    some (world, mutatedTurns world account day (closeOutDelisted world day))
  | .settlement world terms =>
    some (world, mutatedTurns world account terms.effective (recordSettlement world terms))
  | _ => none

/-- Whether a fold that is kept lets a priced order expire. -/
def commitsExpiry (world : World zone) (account : Account) (stop : Int)
    (mutation : Account → Except AccountError Account) : Bool :=
  (foldAccount world account stop mutation).isOk &&
    (mutatedTurns world account stop mutation).any fun turn => turn.lapses world

/-- Whether a settlement sweeps a pending order that it did not plan to cancel. -/
def strays (account : Account) (terms : Terms) (folded : Account) : Bool :=
  decide (pendingOf account terms.ticker ≠ []) &&
    (pendingOf folded terms.ticker).any fun id =>
      decide (id ∉ pendingOf account terms.ticker)

/-- A call without loose writes. -/
def Orderly (account : Account) : Operation zone → Prop
  | .settle world day => account.settings.status.processing = true →
      commitsExpiry world account day (closeOutDelisted world day) = false
  | .settlement world terms => (validTerms world.market terms && bookable account terms) = true →
      commitsExpiry world account terms.effective (recordSettlement world terms) = false ∧
      ∀ folded ∈ (foldAccount world account terms.effective (recordSettlement world terms)).toOption,
        strays account terms folded = false
  | .reconcileSettled ticker => ∀ row ∈ account.orders.entries,
      row.2.status = .pending ∧ ticker.all (fun name => decide (name = row.2.ticker)) = true →
      row.2.details.isSome = true → coveringSettlement account.ledger row.2 = none
  | _ => True

instance (account : Account) : ∀ operation : Operation zone, Decidable (Orderly account operation)
  | .settle _ _ | .settlement _ _ | .reconcileSettled _ => by
    unfold Orderly
    infer_instance
  | .submit _ _ | .cancel _ _ | .halt _ | .resume _ _ | .retire _ | .finalizeRetirement _
  | .reconcile _ _ _ | .verify _ _ => inferInstanceAs (Decidable True)

theorem openFold_orders {world : World zone} {account opened : Account} {stop : Int}
    {plan : FoldPlan} (done : openFold world account stop = .ok (opened, plan)) :
    opened.orders = account.orders := by
  obtain ⟨_, _, _, _, rfl, _⟩ := openFold_ok done
  rfl

theorem markAccount_orders {world : World zone} {account next : Account} {day : Int}
    (marked : markAccount world account day = .ok next) : next.orders = account.orders := by
  obtain ⟨row, prices, rfl⟩ := markAccount_ok marked
  rfl

theorem Write.ticker {strict : Bool} {order next : Order} (write : Write strict order next) :
    next.ticker = order.ticker := by
  cases write <;> rfl

/-- The orders of an earlier table are still there, for the same instrument. -/
def TickersKept (before orders : Table OrderId Order) : Prop :=
  ∀ id order, before.lookup id = some order →
    ∃ next, orders.lookup id = some next ∧ next.ticker = order.ticker

theorem tickersKept_lawful (strict : Bool) (before : Table OrderId Order) :
    OrderLaw strict true (TickersKept before) :=
  .all fun id => .all fun _ => .all fun _ => .oneRow id fun _ _ write same =>
    write.ticker.trans same

theorem tickersKept_refl (orders : Table OrderId Order) : TickersKept orders orders :=
  fun _ order found => ⟨order, found, rfl⟩

theorem validIntent_session {account : Account} {intent : Intent} {now : Int}
    (valid : validIntent zone account intent now = true) : isSession intent.sessionDate = true := by
  simp only [validIntent, receivedAtAllowed, Bool.and_eq_true] at valid
  exact valid.1.1.2.1

section Laws

variable {strict intake : Bool} {law : Table OrderId Order → Prop}
  (lawful : OrderLaw strict intake law)

include lawful

/-- A turn of a session respects a law. -/
theorem visit_orders {world : World zone} {settings : AccountSettings} {day : Int}
    {sequence : List Event} {turn : Turn} {next : Account}
    (visited : (turn.account, turn.item) ∈ sessionVisits world settings turn.begun day sequence)
    (lawfully : law turn.account.orders) (unlapsed : strict = true → turn.lapses world = false)
    (applied : applyItem world turn.session turn.account turn.item = .ok next) :
    law next.orders := by
  cases executes : turn.item.order with
  | none => exact (applyItem_booksOnly executes applied).orders ▸ lawfully
  | some id =>
    cases item : turn.item with
    | execute row result =>
      rw [item] at visited applied
      obtain ⟨outcome, settled, rfl⟩ := map_ok.mp applied
      obtain ⟨pending, order, found, _, stored, _, prepared, _⟩ := executing_order visited
      obtain ⟨state, reason, written, kind⟩ := settleOrder_write settled
      rw [written]
      refine lawful.rewriteOrder lawfully ?_
      intro other same
      obtain rfl : order = other := Option.some.inj (found.symm.trans same)
      have queued := pendingRow_queued stored
      rcases kind with closes | ⟨rfl, rfl, _⟩ | ⟨rfl, lapse, qty, rfl, expired, ready⟩
      · exact .settled reason world.now queued closes
      · obtain ⟨details, kept, reasons⟩ := pendingRow_stateReason stored
        have carried : row.stateReason = details.stateReason := by
          rw [reasons, prepared]
          rfl
        rw [carried]
        exact .waited world.now queued kept
      · refine .lapsed lapse world.now queued ?_
        by_contra tight
        have quiet := unlapsed (by simpa using tight)
        simp [Turn.lapses, item, expired, ready] at quiet
    | recorded event => simp [item, Item.order] at executes
    | interest => simp [item, Item.order] at executes
    | dividends => simp [item, Item.order] at executes
    | borrow => simp [item, Item.order] at executes

theorem applyItem_orders {world : World zone} {account next : Account} {stop : Int} {turn : Turn}
    (member : turn ∈ foldTurns world account stop) (lawfully : law turn.account.orders)
    (unlapsed : strict = true → turn.lapses world = false)
    (applied : applyItem world turn.session turn.account turn.item = .ok next) :
    law next.orders := by
  obtain ⟨day, sequence, _, _, _, visited⟩ := mem_foldTurns member
  exact visit_orders lawful visited lawfully unlapsed applied

theorem foldLoop_orders {world : World zone} {account final : Account} {stop : Int}
    (holds : law account.orders)
    (unlapsed : strict = true → ∀ turn ∈ foldTurns world account stop, turn.lapses world = false)
    (completed : foldLoop world account stop = .ok final) : law final.orders := by
  refine foldLoop_invariant (fun state => law state.orders) ?_ ?_ ?_ completed
  · intro opened plan done
    exact (openFold_orders done).symm ▸ holds
  · intro turn member next _ lawfully applied
    exact applyItem_orders lawful member lawfully (fun tight => unlapsed tight turn member) applied
  · intro state day next lawfully marked
    exact (markAccount_orders marked).symm ▸ lawfully

theorem foldTurns_orders {world : World zone} {account : Account} {stop : Int}
    (loose : strict = false) (holds : law account.orders) :
    ∀ turn ∈ foldTurns world account stop, law turn.begun.orders ∧ law turn.account.orders := by
  refine foldTurns_invariant (fun state => law state.orders) ?_ ?_ ?_
  · intro opened plan done
    exact (openFold_orders done).symm ▸ holds
  · intro turn member next _ lawfully applied
    exact applyItem_orders lawful member lawfully (fun tight => by simp [loose] at tight) applied
  · intro state day next lawfully marked
    exact (markAccount_orders marked).symm ▸ lawfully

theorem haltAccount_orders {account next : Account} {reason : Reason} {now : Int}
    (holds : law account.orders) (halted : haltAccount account reason now = .ok next) :
    law next.orders := by
  have cancelled : law (cancelWhere (fun order => decide (order.status = .pending) &&
      !order.led Reason.forces) reason now account.orders) :=
    lawful.cancelWhere _ holds fun order hit => by simp at hit; exact hit.1
  unfold haltAccount at halted
  split at halted
  · cases halted
  · cases halted
    exact holds
  · cases halted
    exact cancelled
  · cases halted
    exact cancelled
  · cases halted
    exact cancelled

theorem persistMismatch_orders {world : World zone} {account : Account}
    {sessionDate : Option Int} (holds : law account.orders) :
    law (persistMismatch world account sessionDate).orders := by
  unfold persistMismatch
  dsimp only
  split
  · rename_i halted
    refine haltAccount_orders lawful ?_ halted
    exact holds
  · exact holds

theorem checkMaintenance_orders {world : World zone} {account next : Account} {day : Int}
    (holds : law account.orders) (checked : checkMaintenance world account day = .ok next) :
    law next.orders := by
  unfold checkMaintenance at checked
  split at checked
  · obtain ⟨state, _, checked⟩ := bind_ok.mp checked
    dsimp only at checked
    split at checked
    · cases checked
      exact holds
    · cases checked
      refine foldl_invariant (fun state : Account => law state.orders) ?_ holds
      intro row _ state lawfully
      split
      · exact lawfully
      · refine lawful.queue lawfully (.forced _ _ _ _ _ _ _ _ ?_ rfl (.inl rfl)
          fun _ => ⟨zone, rfl⟩)
        unfold reducingSide
        split <;> rfl
  · cases checked
    exact holds

theorem queueBuyIns_orders {world : World zone} {account : Account} {day : Int}
    (holds : law account.orders) : law (queueBuyIns world account day).orders := by
  unfold queueBuyIns
  split
  · refine foldl_invariant (fun state : Account => law state.orders) ?_ holds
    intro row _ state lawfully
    split
    · exact lawfully
    · exact lawful.queue lawfully (.forced _ _ _ _ _ _ _ _ rfl rfl (.inl rfl)
        fun _ => ⟨zone, rfl⟩)
  · exact holds

theorem finishFold_orders {world : World zone} {account next : Account}
    (holds : law account.orders) (finished : finishFold world account = .ok next) :
    law next.orders := by
  obtain ⟨_, _, finished⟩ := bind_ok.mp finished
  split at finished
  · cases finished
    rwa [finalizeRetirement_orders]
  · obtain ⟨checked, halts, finished⟩ := bind_ok.mp finished
    obtain ⟨maintained, reductions, finished⟩ := bind_ok.mp finished
    cases finished
    rw [finalizeRetirement_orders]
    have halted : law checked.orders := by
      rcases haltCheck_cases halts with rfl | rfl | ⟨reason, stopped⟩
      · exact holds
      · exact holds
      · refine haltAccount_orders lawful ?_ stopped
        exact holds
    have reduced := checkMaintenance_orders lawful halted reductions
    split
    · exact queueBuyIns_orders lawful reduced
    · exact reduced

theorem closeOutDelisted_orders {world : World zone} {day : Int} {account next : Account}
    (holds : law account.orders) (closed : closeOutDelisted world day account = .ok next) :
    law next.orders := by
  refine foldlM_invariant (fun state => law state.orders) ?_ holds closed
  intro terms _ state after lawfully done
  unfold closeOut at done
  split at done
  · obtain ⟨recorded, booked, done⟩ := bind_ok.mp done
    cases done
    have same := recordSettlement_orders booked
    unfold cancelSettled
    split
    · rwa [same]
    · dsimp only
      rw [same]
      refine lawful.rewritten _ _ lawfully ?_
      intro id order found
      rw [settleCancel_planned found]
      split
      · rename_i hit
        exact .inr (.cancelled _ _ hit.2)
      · exact .inl rfl
  · cases done
    exact lawfully

theorem foldAccount_orders {world : World zone} {account next : Account} {stop : Int}
    {mutation : Account → Except AccountError Account}
    (mutates : ∀ changed, mutation account = .ok changed → law changed.orders)
    (unlapsed : strict = true → commitsExpiry world account stop mutation = false)
    (folded : foldAccount world account stop mutation = .ok next) : law next.orders := by
  have committed := folded
  obtain ⟨_, _, folded⟩ := bind_ok.mp folded
  obtain ⟨changed, mutated, folded⟩ := bind_ok.mp folded
  obtain ⟨looped, loop, finished⟩ := bind_ok.mp folded
  refine finishFold_orders lawful (foldLoop_orders lawful (mutates changed mutated) ?_ loop) finished
  intro tight turn member
  have quiet := unlapsed tight
  simp only [commitsExpiry, mutatedTurns, committed, mutated, Except.isOk, Except.toBool,
    Bool.true_and] at quiet
  simpa using List.any_eq_false.mp quiet turn member

omit lawful in
/-- Orders that a settlement planned to cancel are of its instrument after its fold. -/
theorem planned_ticker {world : World zone} {account folded : Account} {terms : Terms}
    (done : foldAccount world account terms.effective (recordSettlement world terms) = .ok folded)
    {id : OrderId} {order : Order} (found : folded.orders.lookup id = some order)
    (planned : id ∈ pendingOf account terms.ticker) : order.ticker = terms.ticker := by
  have kept : TickersKept account.orders folded.orders := by
    refine foldAccount_orders (tickersKept_lawful false account.orders) ?_ (by simp) done
    intro changed recorded
    rw [recordSettlement_orders recorded]
    exact tickersKept_refl account.orders
  obtain ⟨old, stored, ticker, _⟩ := mem_pendingOf.mp planned
  obtain ⟨next, present, same⟩ := kept id old stored
  obtain rfl : order = next := Option.some.inj (found.symm.trans present)
  exact same.trans ticker

theorem settleSession_orders {world : World zone} {account : Account} {day : Int}
    (holds : law account.orders)
    (orderly : strict = true → Orderly account (.settle world day)) :
    law (settleSession world account day).orders := by
  unfold settleSession
  split
  · rename_i processing
    split
    · rename_i folded
      refine foldAccount_orders lawful (fun changed => closeOutDelisted_orders lawful holds) ?_ folded
      intro tight
      exact orderly tight processing
    · exact persistMismatch_orders lawful holds
  · exact holds

theorem bookSettlement_orders {world : World zone} {account : Account} {terms : Terms}
    (holds : law account.orders)
    (orderly : strict = true → Orderly account (.settlement world terms))
    (sweeps : strict = true → ∀ folded,
      foldAccount world account terms.effective (recordSettlement world terms) = .ok folded →
      strays account terms folded = false → law folded.orders →
      law (cancelSettled world terms (pendingOf account terms.ticker) folded).orders) :
    law (bookSettlement world account terms).orders := by
  unfold bookSettlement
  split
  · rename_i valid
    split
    · rename_i folded done
      have lawfully : law folded.orders := by
        refine foldAccount_orders lawful ?_ (fun tight => (orderly tight valid).1) done
        intro changed recorded
        rwa [recordSettlement_orders recorded]
      cases tight : strict with
      | true => exact sweeps tight folded done ((orderly tight valid).2 folded (by rw [done]; rfl)) lawfully
      | false =>
        unfold cancelSettled
        split
        · exact lawfully
        · refine lawful.rewritten _ _ lawfully ?_
          intro id order found
          exact .inr (.swept _ _ _ _ _ (planned_ticker done found) tight)
    · exact persistMismatch_orders lawful holds
  · exact holds

theorem cancel_orders {world : World zone} {account : Account} {id : OrderId}
    (holds : law account.orders) : law (cancel world account id).orders := by
  unfold cancel
  split
  · exact holds
  · rename_i order found
    split
    · rename_i allowed
      refine lawful.rewriteOrder holds ?_
      intro other same
      obtain rfl : order = other := Option.some.inj (found.symm.trans same)
      simp only [cancellable, Bool.and_eq_true, decide_eq_true_eq] at allowed
      exact .cancelled _ _ allowed.1.1
    · exact holds

theorem halt_orders {world : World zone} {account : Account} (holds : law account.orders) :
    law (halt world account).orders := by
  unfold halt
  split
  · exact persistMismatch_orders lawful holds
  · split
    · rename_i halted
      exact haltAccount_orders lawful holds halted
    · exact holds

theorem resume_orders {world : World zone} {account : Account} {authorised : Bool}
    (holds : law account.orders) : law (resume world account authorised).orders := by
  unfold resume
  split
  · exact holds
  · split
    · exact persistMismatch_orders lawful holds
    · split
      · exact holds
      · exact holds

theorem retire_orders {world : World zone} {account : Account} (holds : law account.orders) :
    law (retire world account).orders := by
  have cancelled : law (cancelOpenings account world.now).orders := by
    refine lawful.cancelWhere
      (fun order => decide (order.status = .pending) && !order.side.closing) holds ?_
    intro order hit
    simp only [Bool.and_eq_true, decide_eq_true_eq] at hit
    exact hit.1
  have queued : law (queueLiquidation world (cancelOpenings account world.now)).orders := by
    refine foldl_invariant (fun state : Account => law state.orders) ?_ cancelled
    intro row _ state lawfully
    refine lawful.queue lawfully (.forced _ _ _ _ _ _ _ _ ?_ rfl (.inr rfl)
      fun impossible => by cases impossible)
    unfold reducingSide
    split <;> rfl
  unfold retire
  split
  · exact holds
  · exact holds
  all_goals
    dsimp only
    split
    · exact queued
    · exact queued

theorem reconcile_orders {world : World zone} {account : Account} {sessionDate : Int}
    {evidence : Evidence} (holds : law account.orders) :
    law (reconcile world account sessionDate evidence).orders := by
  unfold reconcile
  split
  · exact holds
  · dsimp only
    split
    · split
      · rename_i halted
        refine haltAccount_orders lawful ?_ halted
        exact holds
      · exact holds
    · exact holds

theorem submit_orders {world : World zone} {account : Account} {intent : Intent}
    (accepting : intake = true) (holds : law account.orders) : law (submit world account intent).orders := by
  unfold submit
  split
  · rename_i accepted receipt submitted
    rcases submitIntent_ok submitted with ⟨rfl, _⟩ | ⟨valid, parent, _, _, _, rfl⟩
    · exact holds
    · exact lawful.inserted _ _ _ holds (nextOrderId_missing _ _) 
        (.entered intent parent _ (validIntent_limited valid) (validIntent_session valid) accepting)
  · exact holds

theorem reconcileSettled_orders {account : Account} {ticker : Option Ticker}
    (holds : law account.orders)
    (orderly : strict = true → Orderly account (.reconcileSettled ticker : Operation zone)) :
    law (reconcileSettledPendingOrders account ticker).orders := by
  unfold reconcileSettledPendingOrders
  dsimp only
  refine lawful.rewritten _ _ holds ?_
  intro id order found
  split
  · rename_i selected
    split
    · rename_i effective covering
      refine .inr (.stale _ selected.1 ?_)
      cases tight : strict with
      | false => exact .inl rfl
      | true =>
        right
        by_contra detailed
        have clear := orderly tight ⟨id, order⟩ (mem_of_lookup found) selected
          (Option.isSome_iff_ne_none.mpr detailed)
        simp [covering] at clear
    · exact .inl rfl
  · exact .inl rfl

/-- Every call respects a law. -/
theorem step_orders {account : Account} {operation : Operation zone} (holds : law account.orders)
    (accepting : ∀ world intent, operation = .submit world intent → intake = true)
    (orderly : strict = true → Orderly account operation)
    (sweeps : strict = true → ∀ world terms folded, operation = .settlement world terms →
      foldAccount world account terms.effective (recordSettlement world terms) = .ok folded →
      strays account terms folded = false → law folded.orders →
      law (cancelSettled world terms (pendingOf account terms.ticker) folded).orders) :
    law (step account operation).orders := by
  cases operation with
  | submit world intent => exact submit_orders lawful (accepting world intent rfl) holds
  | cancel world id => exact cancel_orders lawful holds
  | settle world day => exact settleSession_orders lawful holds orderly
  | halt world => exact halt_orders lawful holds
  | resume world authorised => exact resume_orders lawful holds
  | retire world => exact retire_orders lawful holds
  | finalizeRetirement world =>
    change law (finalizeRetirement world account).orders
    rwa [finalizeRetirement_orders]
  | reconcile world sessionDate evidence => exact reconcile_orders lawful holds
  | verify world sessionDate =>
    change law (verifyAccount world account sessionDate).orders
    unfold verifyAccount
    split
    · exact holds
    · exact persistMismatch_orders lawful holds
  | settlement world terms =>
    exact bookSettlement_orders lawful holds orderly
      fun tight folded => sweeps tight world terms folded rfl
  | reconcileSettled ticker => exact reconcileSettled_orders lawful holds orderly

end Laws

/-- A call that folds: its world, its last day and what it changes first. -/
inductive FoldCall (account : Account) :
    Operation zone → World zone → Int → (Account → Except AccountError Account) → Prop where
  | settle (world : World zone) (day : Int) :
      FoldCall account (.settle world day) world day (closeOutDelisted world day)
  | settlement (world : World zone) (terms : Terms) :
      FoldCall account (.settlement world terms) world terms.effective
        (recordSettlement world terms)

namespace FoldCall

variable {account : Account} {operation : Operation zone} {world : World zone} {stop : Int}
  {mutation : Account → Except AccountError Account}

theorem turns (call : FoldCall account operation world stop mutation) :
    foldedTurns account operation = some (world, mutatedTurns world account stop mutation) := by
  cases call <;> rfl

/-- What a call changes before it folds: settlements and the orders under them. -/
theorem mutates (call : FoldCall account operation world stop mutation) {changed : Account}
    (mutated : mutation account = .ok changed) :
    changed.book = account.book ∧
    changed.ledger = { account.ledger with settlements := changed.ledger.settlements } ∧
    changed.administration = account.administration ∧
    ∀ strict intake law, OrderLaw strict intake law → law account.orders → law changed.orders := by
  cases call with
  | settle world day =>
    obtain ⟨book, ledger⟩ := closeOutDelisted_ledger mutated
    exact ⟨book, ledger, closeOutDelisted_administration mutated,
      fun _ _ _ lawful holds => closeOutDelisted_orders lawful holds mutated⟩
  | settlement world terms =>
    have orders := recordSettlement_orders mutated
    have administration := recordSettlement_administration mutated
    obtain ⟨_, rfl⟩ := recordSettlement_ok mutated
    exact ⟨rfl, rfl, administration, fun _ _ _ _ holds => holds⟩

end FoldCall

theorem foldedTurns_call {account : Account} {operation : Operation zone} {world : World zone}
    {turns : List Turn} (folds : foldedTurns account operation = some (world, turns)) :
    ∃ stop mutation, FoldCall account operation world stop mutation ∧
      turns = mutatedTurns world account stop mutation := by
  cases operation with
  | settle world day =>
    cases folds
    exact ⟨day, _, .settle world day, rfl⟩
  | settlement world terms =>
    cases folds
    exact ⟨_, _, .settlement world terms, rfl⟩
  | _ => cases folds

/-- A call supervises an account or the outcome of its fold. -/
theorem step_supervises (account : Account) (operation : Operation zone) :
    Supervised account (step account operation) ∨
    ∃ world stop mutation folded, FoldCall account operation world stop mutation ∧
      foldAccount world account stop mutation = .ok folded ∧
      Supervised folded (step account operation) ∧
      ∀ intake law, OrderLaw false intake law → law folded.orders →
        law (step account operation).orders := by
  cases operation with
  | settle world day =>
    change Supervised account (settleSession world account day) ∨ _
    unfold settleSession
    split
    · split
      · rename_i folded done
        have same : step account (.settle world day) = folded := by
          simp [step, settleSession, *]
        exact .inr ⟨world, day, _, folded, .settle world day, done, by rw [same]; exact .refl _,
          fun _ law _ holds => by rwa [same]⟩
      · exact .inl (persistMismatch_supervised world account none)
    · exact .inl (.refl _)
  | settlement world terms =>
    change Supervised account (bookSettlement world account terms) ∨ _
    unfold bookSettlement
    split
    · split
      · rename_i folded done
        have same : step account (.settlement world terms) =
            cancelSettled world terms (pendingOf account terms.ticker) folded := by
          simp [step, bookSettlement, *]
        refine .inr ⟨world, _, _, folded, .settlement world terms, done,
          by rw [same]; exact cancelSettled_supervised _ _ _ _, ?_⟩
        intro _ law lawful holds
        rw [same]
        unfold cancelSettled
        split
        · exact holds
        · exact lawful.rewritten _ _ holds fun _ _ found =>
            .inr (.swept _ _ _ _ _ (planned_ticker done found) rfl)
      · exact .inl (persistMismatch_supervised world account none)
    · exact .inl (.refl _)
  | _ => exact .inl (step_supervised account _ (by simp) (by simp))

theorem step_folds (account : Account) (operation : Operation zone) :
    (step account operation).books = account.books ∨
    ∃ world stop mutation folded, FoldCall account operation world stop mutation ∧
      foldAccount world account stop mutation = .ok folded ∧
      (step account operation).books = folded.books ∧
      ∀ intake law, OrderLaw false intake law → law folded.orders →
        law (step account operation).orders := by
  rcases step_supervises account operation with same | ⟨world, stop, mutation, folded, call, done,
    same, orders⟩
  · exact .inl same.books
  · exact .inr ⟨world, stop, mutation, folded, call, done, same.books, orders⟩

end TradingEngine.Accounts
