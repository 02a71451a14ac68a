import TradingEngine.OrderStates

/-!
# Orders that wait for a bar

A fold looks at an order in one session only, the one it is due in. Intraday
orders count the sessions between that day and the clock, so a fold that runs late
enough ends them: they expire, are rejected, or are cancelled with their account.
Auction orders and next-open orders never count past their own day. When their bar
stays missing they are pending for good.
-/

namespace TradingEngine.Accounts

open KeyedTables OrderTypes Nyse Ledger Costs Fills Runs

variable {zone : Zone}

/-- Order types that do not trade on the bar of a whole day. -/
def intraday : OrderTypes.OrderType → Bool
  | .market | .limit | .limitOnOpen => true
  | .nextOpen | .moo | .moc => false

theorem v2Result_decides {market : Market zone} {profile : ExecutionProfile} {side : Side}
    {qty reference : ℚ} {volume : Option ℚ} {friction : Friction} {kind : FillKind} {fillTs : Int} :
    v2Result market profile side qty reference volume friction kind fillTs ≠ .pending := by
  unfold v2Result
  split
  · nofun
  · split
    · nofun
    · dsimp only
      split_ifs <;> nofun

theorem missingIntradayResult_decides {day now : Int}
    (late : pendingMaxDays ≤ sessionsBetween day (dateOf now)) :
    missingIntradayResult day now ≠ .pending := by
  unfold missingIntradayResult
  rw [if_neg (not_lt.mpr late)]
  nofun

variable {world : World zone} {account : Account}

/-- An attempt at an intraday order decides once the clock is late enough. -/
theorem fillAttempt_decides {row : PendingRow} {day : Int}
    (kind : intraday row.orderType = true)
    (late : pendingMaxDays ≤ sessionsBetween day (dateOf world.now)) :
    fillAttempt world account row day ≠ .pending := by
  have missing := missingIntradayResult_decides late
  unfold fillAttempt
  dsimp only
  split
  · nofun
  · split
    · rename_i type
      simp [type, intraday] at kind
    · rename_i type
      simp [type, intraday] at kind
    · rename_i type
      simp [type, intraday] at kind
    · unfold attemptIntradayMarketFill
      split
      · nofun
      · split
        · nofun
        · split
          · split
            · nofun
            · exact missing
          · exact v2Result_decides
    · unfold attemptIntradayLimitFill
      split
      · nofun
      · split
        · nofun
        · split
          · nofun
          · dsimp only
            split
            · split
              · nofun
              · exact missing
            · split
              · split
                · nofun
                · exact missing
              · exact v2Result_decides
    · nofun

/-- An intraday order of a session that is nobody's forced order. -/
def Order.Intraday (day : Int) (order : Order) : Prop :=
  ∃ details, order.details = some details ∧ details.state = .queued ∧
    intraday details.orderType = true ∧ details.sessionDate = day ∧
    details.stateReason.any Reason.forces = false

theorem Write.closed {order next : Order} (write : Write false order next)
    (closed : order.status ≠ .pending) : next.status ≠ .pending := by
  cases write with
  | settled reason stateAt queued closes => exact absurd queued.1 closed
  | waited stateAt queued stored => exact absurd queued.1 closed
  | cancelled reason stateAt pending => exact absurd pending closed
  | lapsed reason stateAt queued => exact absurd queued.1 closed
  | stale reason pending => exact absurd pending closed
  | swept => simp [settleCancel, closed]

/-- A write closes an intraday order or leaves it waiting as it was. -/
theorem Write.keepsIntraday {day : Int} {order next : Order} (write : Write false order next)
    (waits : order.status ≠ .pending ∨ order.Intraday day) :
    next.status ≠ .pending ∨ next.Intraday day := by
  rcases waits with closed | ⟨details, stored, queued, kind, session, plain⟩
  · exact .inl (write.closed closed)
  · cases write with
    | @settled state reason stateAt _ closes =>
      left
      rcases closes with rfl | rfl | rfl <;> simp [Order.withState, settledStatus]
    | @waited row stateAt _ kept =>
      obtain rfl : details = row := Option.some.inj (stored.symm.trans kept)
      right
      let waiting : OrderDetails := { details with
        state := .queued, stateReason := waitingReasons details.stateReason, stateAt := stateAt }
      refine ⟨waiting, by simp [Order.withState, stored, waiting], rfl, kind, session, ?_⟩
      exact (waitingReasons_forces _).trans plain
    | cancelled reason stateAt pending => exact .inl (by simp [Order.cancel])
    | lapsed reason stateAt _ => exact .inl (by simp [Order.withState, settledStatus])
    | stale reason pending => exact .inl (by simp)
    | swept ticker effective now planned id owned =>
      by_cases pending : order.status = .pending
      · by_cases listed : id ∈ planned
        · exact .inl (by simp [settleCancel, owned listed, pending])
        · by_cases same : order.ticker = ticker
          · exact .inl (by simp [settleCancel, same, pending])
          · refine .inr ⟨details, ?_, queued, kind, session, plain⟩
            simp [settleCancel, stored, listed]
      · exact .inl (by simp [settleCancel, pending])

/-- What is known of every intraday row: its day is a session, and while it is pending
it is queued and no forced reason stands beside it. -/
def Order.PlainIntraday (order : Order) : Prop :=
  ∀ details, order.details = some details → intraday details.orderType = true →
    isSession details.sessionDate = true ∧
    (order.status = .pending →
      details.state = .queued ∧ details.stateReason.any Reason.forces = false)

theorem Write.plainIntraday {order next : Order} (write : Write false order next)
    (plain : order.PlainIntraday) : next.PlainIntraday := by
  have kept : ∀ row, order.details = some row → ∀ changed : OrderDetails,
      changed.orderType = row.orderType → changed.sessionDate = row.sessionDate →
      intraday changed.orderType = true → isSession changed.sessionDate = true := by
    intro row stored changed type session kind
    rw [session]
    exact (plain row stored (type ▸ kind)).1
  intro details stored kind
  cases write with
  | @settled state reason stateAt _ closes =>
    obtain ⟨row, before, rfl⟩ := Option.map_eq_some_iff.mp stored
    refine ⟨kept row before _ rfl rfl kind, ?_⟩
    intro pending
    rcases closes with rfl | rfl | rfl <;> simp [Order.withState, settledStatus] at pending
  | @waited row stateAt queued before =>
    simp only [Order.withState, before, Option.map_some, Option.some.injEq] at stored
    subst stored
    refine ⟨kept row before _ rfl rfl kind, ?_⟩
    intro _
    exact ⟨rfl, (waitingReasons_forces _).trans ((plain row before kind).2 queued.1).2⟩
  | cancelled reason stateAt _ =>
    obtain ⟨row, before, rfl⟩ := Option.map_eq_some_iff.mp stored
    refine ⟨?_, by simp [Order.cancel]⟩
    split at kind <;> split <;> exact kept row before _ rfl rfl (by simpa using kind)
  | lapsed reason stateAt _ =>
    obtain ⟨row, before, rfl⟩ := Option.map_eq_some_iff.mp stored
    exact ⟨kept row before _ rfl rfl kind, by simp [Order.withState, settledStatus]⟩
  | stale reason _ => exact ⟨(plain details stored kind).1, by simp⟩
  | swept ticker effective now planned id owned =>
    obtain ⟨row, before, rfl⟩ := Option.map_eq_some_iff.mp stored
    by_cases touched : id ∈ planned ∧ row.state = .queued
    · simp only [if_pos touched] at kind ⊢
      refine ⟨kept row before _ rfl rfl kind, ?_⟩
      intro pending
      by_cases open' : order.status = .pending
      · simp [settleCancel, owned touched.1, open'] at pending
      · simp [settleCancel, open'] at pending
    · simp only [if_neg touched] at kind ⊢
      refine ⟨(plain row before kind).1, ?_⟩
      intro pending
      refine (plain row before kind).2 ?_
      by_contra closed
      simp [settleCancel, closed] at pending

theorem plainIntraday_lawful : OrderLaw false true fun orders =>
    ∀ id order, orders.lookup id = some order → order.PlainIntraday := by
  refine .everyRow (fun _ _ => Write.plainIntraday) ?_
  intro order new
  cases new with
  | forced ticker side qty orderType unlimited sessionDate receivedAt reason closing forces auction =>
    intro details stored kind
    cases stored
    rcases auction with rfl | rfl <;> simp [intraday] at kind
  | entered intent parent now limited session =>
    intro details stored _
    cases stored
    exact ⟨session, fun _ => ⟨rfl, rfl⟩⟩

/-- Every pending order is one of the engine's own. -/
def Order.Quiet (order : Order) : Prop := order.status = .pending → order.led Reason.forces = true

theorem Write.quiet {order next : Order} (write : Write false order next) (quiet : order.Quiet) :
    next.Quiet := by
  cases write with
  | @settled state reason stateAt _ closes =>
    intro pending
    rcases closes with rfl | rfl | rfl <;> simp [Order.withState, settledStatus] at pending
  | @waited row stateAt queued stored =>
    intro _
    have led := quiet queued.1
    simp only [Order.led, stored, Option.bind_some] at led
    simp only [Order.led, Order.withState, stored, Option.map_some, Option.bind_some]
    unfold waitingReasons
    split
    · exact led
    · cases reasons : row.stateReason with
      | nil => simp [reasons] at led
      | cons first rest => simpa [reasons] using led
  | cancelled reason stateAt _ => simp [Order.Quiet, Order.cancel]
  | lapsed reason stateAt _ => simp [Order.Quiet, Order.withState, settledStatus]
  | stale reason _ => simp [Order.Quiet]
  | swept ticker effective now planned id owned =>
    intro pending
    by_cases open' : order.status = .pending
    · have led := quiet open'
      have apart : order.ticker ≠ ticker := by
        intro same
        simp [settleCancel, same, open'] at pending
      have unlisted : id ∉ planned := fun listed => apart (owned listed)
      simpa [Order.led, settleCancel, unlisted] using led
    · simp [settleCancel, open'] at pending

theorem quiet_lawful : OrderLaw false false fun orders =>
    ∀ id order, orders.lookup id = some order → order.Quiet := by
  refine .everyRow (fun _ _ => Write.quiet) ?_
  intro order new
  cases new with
  | forced ticker side qty orderType unlimited sessionDate receivedAt reason closing forces auction =>
    intro _
    simpa [Order.led, forcedOrder] using forces
  | entered intent parent now limited session accepting => cases accepting

/-- While an account is halted its pending orders are the engine's own. -/
def Account.Subdued (account : Account) : Prop :=
  account.settings.status = .halted →
    ∀ id order, account.orders.lookup id = some order → order.Quiet

/-- A call that takes in no intent and leaves the status alone keeps an account subdued. -/
theorem Account.Subdued.of_lawful {before after : Account} (subdued : before.Subdued)
    (administration : after.administration = before.administration)
    (orders : ∀ law, OrderLaw false false law → law before.orders → law after.orders) :
    after.Subdued := by
  intro halted
  have settings : after.settings = before.settings :=
    congrArg Administration.settings administration
  exact orders _ quiet_lawful (subdued (settings ▸ halted))

theorem Account.Subdued.of_status {status : AccountStatus}
    (reached : account.settings.status = status) (running : status ≠ .halted) :
    account.Subdued :=
  fun halted => absurd (reached.symm.trans halted) running

theorem finalizeRetirement_subdued
    (subdued : account.Subdued) : (finalizeRetirement world account).Subdued := by
  unfold finalizeRetirement
  split
  · exact .of_status rfl (by simp)
  · exact subdued

/-- A halt cancels every pending order but the engine's own. -/
theorem haltAccount_subdued {next : Account} {reason : Reason} {now : Int}
    (subdued : account.Subdued) (halted : haltAccount account reason now = .ok next) :
    next.Subdued := by
  have cancelled : ∀ id order, (cancelWhere (fun order => decide (order.status = .pending) &&
      !order.led Reason.forces) reason now account.orders).lookup id = some order →
      order.Quiet := by
    intro id order found
    rw [cancelWhere, lookup_mapRows, Option.map_eq_some_iff] at found
    obtain ⟨old, _, rfl⟩ := found
    split
    · simp [Order.Quiet, Order.cancel]
    · rename_i spared
      simpa [Order.Quiet] using spared
  unfold haltAccount at halted
  split at halted
  · cases halted
  · cases halted
    exact subdued
  all_goals
    cases halted
    exact fun _ => cancelled

theorem persistMismatch_subdued
    (subdued : account.Subdued) (sessionDate : Option Int) :
    (persistMismatch world account sessionDate).Subdued := by
  unfold persistMismatch
  dsimp only
  split
  · rename_i halted
    refine haltAccount_subdued ?_ halted
    exact subdued
  · exact subdued

theorem finishFold_subdued {next : Account}
    (subdued : account.Subdued) (finished : finishFold world account = .ok next) :
    next.Subdued := by
  obtain ⟨_, _, finished⟩ := bind_ok.mp finished
  split at finished
  · cases finished
    exact finalizeRetirement_subdued subdued
  · obtain ⟨checked, halts, finished⟩ := bind_ok.mp finished
    obtain ⟨maintained, reductions, finished⟩ := bind_ok.mp finished
    cases finished
    apply finalizeRetirement_subdued
    have calm : checked.Subdued := by
      rcases haltCheck_cases halts with rfl | rfl | ⟨reason, stopped⟩
      · exact subdued
      · exact subdued
      · refine haltAccount_subdued ?_ stopped
        exact subdued
    have reduced : maintained.Subdued :=
      calm.of_lawful (checkMaintenance_administration reductions)
        fun law lawful holds => checkMaintenance_orders lawful holds reductions
    split
    · exact reduced.of_lawful (queueBuyIns_administration world maintained _)
        fun law lawful holds => queueBuyIns_orders lawful holds
    · exact reduced

theorem foldAccount_subdued {operation : Operation zone}
    {folded : Account} {stop : Int} {mutation : Account → Except AccountError Account}
    (call : FoldCall account operation world stop mutation) (subdued : account.Subdued)
    (done : foldAccount world account stop mutation = .ok folded) : folded.Subdued := by
  obtain ⟨_, _, done⟩ := bind_ok.mp done
  obtain ⟨changed, mutated, done⟩ := bind_ok.mp done
  obtain ⟨looped, loop, finished⟩ := bind_ok.mp done
  obtain ⟨_, _, administration, orders⟩ := call.mutates mutated
  refine finishFold_subdued
    (subdued.of_lawful ((foldLoop_administration loop).trans administration) ?_) finished
  intro law lawful holds
  exact foldLoop_orders lawful (orders _ _ _ lawful holds) (by simp) loop

/-- Every call keeps an account subdued. -/
theorem step_subdued (subdued : account.Subdued)
    (operation : Operation zone) : (step account operation).Subdued := by
  cases operation with
  | submit world intent =>
    change (submit world account intent).Subdued
    rcases submit_cases world account intent with same | ⟨_, active⟩
    · exact same.symm ▸ subdued
    · exact .of_status active (by simp)
  | cancel world id =>
    refine subdued.of_lawful ?_ fun law lawful holds => cancel_orders lawful holds
    change (cancel world account id).administration = account.administration
    unfold cancel
    split
    · rfl
    · split <;> rfl
  | settle world day =>
    change (settleSession world account day).Subdued
    unfold settleSession
    split
    · split
      · rename_i done
        exact foldAccount_subdued (.settle world day) subdued done
      · exact persistMismatch_subdued subdued none
    · exact subdued
  | halt world =>
    change (halt world account).Subdued
    unfold halt
    split
    · exact persistMismatch_subdued subdued none
    · split
      · rename_i halted
        exact haltAccount_subdued subdued halted
      · exact subdued
  | resume world authorised =>
    change (resume world account authorised).Subdued
    unfold resume
    split
    · exact subdued
    · split
      · exact persistMismatch_subdued subdued none
      · split
        · exact subdued
        · exact .of_status rfl (by simp)
  | retire world =>
    change (retire world account).Subdued
    unfold retire
    split
    · exact subdued
    · exact subdued
    all_goals
      dsimp only
      split
      · exact .of_status rfl (by simp)
      · exact .of_status rfl (by simp)
  | finalizeRetirement world => exact finalizeRetirement_subdued subdued
  | reconcile world sessionDate evidence =>
    change (reconcile world account sessionDate evidence).Subdued
    unfold reconcile
    split
    · exact subdued
    · dsimp only
      split
      · split
        · rename_i halted
          refine haltAccount_subdued ?_ halted
          exact subdued
        · exact subdued
      · exact subdued
  | verify world sessionDate =>
    change (verifyAccount world account sessionDate).Subdued
    unfold verifyAccount
    split
    · exact subdued
    · exact persistMismatch_subdued subdued sessionDate
  | settlement world terms =>
    change (bookSettlement world account terms).Subdued
    unfold bookSettlement
    split
    · split
      · rename_i done
        have calm := foldAccount_subdued (.settlement world terms) subdued done
        refine calm.of_lawful (cancelSettled_administration world terms _ _) ?_
        intro law lawful holds
        unfold cancelSettled
        split
        · exact holds
        · exact lawful.rewritten _ _ holds fun _ _ found =>
            .inr (.swept _ _ _ _ _ (planned_ticker done found) rfl)
      · exact persistMismatch_subdued subdued none
    · exact subdued
  | reconcileSettled ticker =>
    refine subdued.of_lawful rfl fun law lawful holds => ?_
    exact step_orders lawful holds (by simp) (by simp) (by simp)

/-- An order that is no longer pending. -/
def EndedOrder (id : OrderId) (orders : Table OrderId Order) : Prop :=
  ∃ order, orders.lookup id = some order ∧ order.status ≠ .pending

theorem endedOrder_lawful (id : OrderId) (intake : Bool) :
    OrderLaw false intake (EndedOrder id) :=
  .oneRow id fun _ _ => Write.closed

/-- When a fold raises, an intraday order is cancelled with its account's halt. -/
theorem persistMismatch_ends {id : OrderId}
    {order : Order} {details : OrderDetails} (processing : account.settings.status.processing = true)
    (subdued : account.Subdued) (found : account.orders.lookup id = some order)
    (stored : order.details = some details) (kind : intraday details.orderType = true)
    (plain : order.PlainIntraday) (sessionDate : Option Int) :
    EndedOrder id (persistMismatch world account sessionDate).orders := by
  have unled : order.status = .pending → order.led Reason.forces = false := by
    intro pending
    have unforced := ((plain details stored kind).2 pending).2
    simp only [Order.led, stored, Option.bind_some]
    cases reasons : details.stateReason with
    | nil => rfl
    | cons first rest =>
      rw [reasons, List.any_cons, Bool.or_eq_false_iff] at unforced
      exact unforced.1
  have cancelled : EndedOrder id (cancelWhere (fun order => decide (order.status = .pending) &&
      !order.led Reason.forces) .haltReconciliation world.now account.orders) := by
    refine ⟨_, by rw [cancelWhere, lookup_mapRows, found]; rfl, ?_⟩
    by_cases pending : order.status = .pending
    · simp [pending, unled pending, Order.cancel]
    · simp [pending]
  unfold persistMismatch
  cases status : account.settings.status with
  | inactive => simp [status, AccountStatus.processing] at processing
  | retired => simp [status, AccountStatus.processing] at processing
  | halted =>
    simp only [haltAccount, status]
    refine ⟨order, found, ?_⟩
    intro pending
    have led := subdued status id order found pending
    simp [unled pending] at led
  | active =>
    simp only [haltAccount, status]
    exact cancelled
  | retiring =>
    simp only [haltAccount, status]
    exact cancelled

/-- Only an unresolved parent makes an order wait before its fill is looked at. -/
theorem preflight_wait {session : Session}
    {row : PendingRow} (waits : preflight world session account row = .wait) :
    contingentQuantity account row.contingentOn = .pending := by
  have sized : ∀ requested, sizedPreflight world session account row requested ≠ .wait := by
    intro requested
    unfold sizedPreflight
    dsimp only
    split
    · nofun
    · split <;> nofun
  unfold preflight at waits
  split at waits
  · cases waits
  · split at waits
    · cases waits
    · split at waits
      · cases waits
      · split at waits
        · cases waits
        · assumption
        · exact absurd waits (sized _)
        · exact absurd waits (sized _)

/-- An order whose parent is resolved and whose attempt decides is closed in its turn. -/
theorem settleOrder_ends {session : Session}
    {row : PendingRow} {result : FillResult} {outcome : Account × Settled} {order : Order}
    (settled : settleOrder world session account row result = .ok outcome)
    (resolved : contingentQuantity account row.contingentOn ≠ .pending)
    (decided : result ≠ .pending) (found : account.orders.lookup row.orderId = some order) :
    EndedOrder row.orderId outcome.1.orders := by
  obtain ⟨state, reason, written, kind⟩ := settleOrder_write settled
  refine ⟨order.withState state reason world.now, ?_, ?_⟩
  · rw [written, lookup_rewriteOrder, found]
    simp
  · rcases kind with (rfl | rfl | rfl) | ⟨_, _, waits | undecided⟩ | ⟨rfl, _⟩
    · simp [Order.withState, settledStatus]
    · simp [Order.withState, settledStatus]
    · simp [Order.withState, settledStatus]
    · exact absurd (preflight_wait waits) resolved
    · exact absurd undecided decided
    · simp [Order.withState, settledStatus]

theorem Order.Intraday.pendingRow {day : Int} {order : Order} (waits : order.Intraday day)
    (pending : order.status = .pending) (id : OrderId) :
    ∃ row, pendingRow id order = some row ∧ row.orderId = id ∧ intraday row.orderType = true ∧
      row.sessionDate = day := by
  obtain ⟨details, stored, queued, kind, session, _⟩ := waits
  unfold Accounts.pendingRow
  rw [stored]
  exact ⟨_, if_pos ⟨pending, queued⟩, rfl, kind, session⟩

theorem mem_sessionItems_execute {begun : Account} {day : Int}
    {sequence : List Event} {row : PendingRow} (listed : row ∈ begun.pendingRows)
    (isDue : due row day = true) :
    Item.execute (prepareOrder world row day)
        (fillAttempt world begun (prepareOrder world row day) day) ∈
      sessionItems world begun day sequence := by
  unfold sessionItems localPrepared
  rw [List.mem_insertionSort, List.mem_append, List.map_map]
  exact .inr (List.mem_map.mpr ⟨row, List.mem_filter.mpr ⟨listed, isDue⟩, rfl⟩)

/-- Whether a turn finds the parent of an order neither filled nor closed. -/
def Turn.awaitsParent (id : OrderId) (turn : Turn) : Bool :=
  match turn.item with
  | .execute row _ => decide (row.orderId = id) &&
      decide (contingentQuantity turn.account row.contingentOn = .pending)
  | _ => false

/-- An order that is closed or an intraday order of a day. -/
def IntradayOrder (id : OrderId) (day : Int) (orders : Table OrderId Order) : Prop :=
  ∃ order, orders.lookup id = some order ∧ (order.status ≠ .pending ∨ order.Intraday day)

theorem intradayOrder_lawful (id : OrderId) (day : Int) :
    OrderLaw false true (IntradayOrder id day) :=
  .oneRow id fun _ _ => Write.keepsIntraday

/-- A completed fold ends an intraday order of a session in its window when the clock
is late enough and the order's parent is resolved in its turn. -/
theorem foldLoop_ends {final : Account} {stop day : Int} {id : OrderId}
    (completed : foldLoop world account stop = .ok final)
    (waits : IntradayOrder id day account.orders) (session : isSession day = true) (window : account.created ≤ day ∧ day ≤ stop)
    (late : pendingMaxDays ≤ sessionsBetween day (dateOf world.now))
    (resolved : ∀ turn ∈ foldTurns world account stop, turn.awaitsParent id = false) :
    EndedOrder id final.orders := by
  obtain ⟨opened, plan, done, _⟩ := foldLoop_ok completed
  obtain ⟨first, last⟩ := openFold_window done
  have ending : ∀ turn ∈ foldTurns world account stop, ∀ next,
      EndedOrder id turn.account.orders →
      applyItem world turn.session turn.account turn.item = .ok next →
      EndedOrder id next.orders := fun turn member next ended applied =>
    applyItem_orders (endedOrder_lawful id true) member ended (by simp) applied
  have lasts := foldTurns_lasts (fun state => EndedOrder id state.orders) ending
    (fun state _ next ended marked => (markAccount_orders marked).symm ▸ ended) completed
  obtain ⟨begun, sequence, _, _, turns⟩ :=
    foldTurns_covers completed done ⟨first.trans window.1, window.2.trans last⟩ session
  obtain ⟨state, accrual, _⟩ := turns .interest (by simp [sessionItems])
  obtain ⟨order, found, waiting⟩ :=
    (foldTurns_orders (intradayOrder_lawful id day) rfl waits _ accrual).1
  by_cases closed : order.status ≠ .pending
  · -- closed before its session: the accrual's turn carries it to the end
    obtain ⟨next, applied, carries⟩ := lasts _ accrual
    refine carries (ending _ accrual next ?_ applied)
    exact foldTurns_since (fun state => EndedOrder id state.orders) ending _ accrual
      ⟨order, found, closed⟩
  · have open' := not_not.mp closed
    obtain ⟨row, read, number, kind, due'⟩ :=
      (waiting.resolve_left closed).pendingRow open' id
    have isDue : due row day = true := by
      cases type : row.orderType <;> simp_all [intraday, due]
    have listed : row ∈ begun.pendingRows := mem_pendingRows.mpr ⟨order, number ▸ found, number ▸ read⟩
    obtain ⟨state, member, visited⟩ := turns _ (mem_sessionItems_execute listed isDue)
    obtain ⟨next, applied, carries⟩ := lasts _ member
    refine carries ?_
    obtain ⟨outcome, settled, rfl⟩ := map_ok.mp applied
    have executed : (prepareOrder world row day).orderId = id := number
    obtain ⟨_, order', present, _⟩ := executing_order visited
    rw [← executed]
    refine settleOrder_ends settled ?_ (fillAttempt_decides kind late) present
    intro unresolved
    have clear := resolved _ member
    simp [Turn.awaitsParent, executed, unresolved] at clear

/-- Whatever ran before, a settle run that is executed enough sessions after the session
of a market or limit order leaves that order closed, unless the order waits for a parent
that its turn finds unresolved. -/
theorem intraday_orders_end {spec : Spec} {capital : ℚ} {source : PriceSource}
    {rule : DayTradeRule} {allowShort : Bool} {now : Int} {account reached : Account}
    (created : createAccount zone spec capital source rule allowShort now = .ok account)
    (operations : List (Operation zone)) (run : reached = operations.foldl step account)
    (world : World zone) (day : Int) (id : OrderId) {order : Order} {details : OrderDetails}
    (processing : reached.settings.status.processing = true)
    (found : reached.orders.lookup id = some order) (stored : order.details = some details)
    (kind : intraday details.orderType = true)
    (window : reached.created ≤ details.sessionDate ∧ details.sessionDate ≤ day)
    (late : pendingMaxDays ≤ sessionsBetween details.sessionDate (dateOf world.now))
    (resolved : ∀ turn ∈ mutatedTurns world reached day (closeOutDelisted world day),
      turn.awaitsParent id = false) :
    ∃ after, (step reached (.settle world day)).orders.lookup id = some after ∧
      after.status ≠ .pending := by
  have known : reached.Subdued ∧ ∀ id order, reached.orders.lookup id = some order →
      order.PlainIntraday := by
    rw [run]
    refine foldl_invariant (fun state : Account => state.Subdued ∧
      ∀ id order, state.orders.lookup id = some order → order.PlainIntraday) ?_ ?_
    · rintro operation _ state ⟨subdued, plain⟩
      exact ⟨step_subdued subdued operation,
        step_orders plainIntraday_lawful plain (fun _ _ _ => rfl) (by simp) (by simp)⟩
    · rw [createAccount_ok created]
      refine ⟨.of_status rfl (by simp [newAccount]), ?_⟩
      simp [newAccount]
  obtain ⟨subdued, rows⟩ := known
  have plain := rows id order found
  have session := (plain details stored kind).1
  change EndedOrder id (settleSession world reached day).orders
  unfold settleSession
  rw [if_pos processing]
  split
  · rename_i folded done
    obtain ⟨_, _, done⟩ := bind_ok.mp done
    obtain ⟨changed, mutated, done⟩ := bind_ok.mp done
    obtain ⟨looped, loop, finished⟩ := bind_ok.mp done
    simp only [mutatedTurns, mutated] at resolved
    have waits : IntradayOrder id details.sessionDate reached.orders := by
      refine ⟨order, found, ?_⟩
      by_cases pending : order.status = .pending
      · obtain ⟨queued, unforced⟩ := (plain details stored kind).2 pending
        exact .inr ⟨details, stored, queued, kind, rfl, unforced⟩
      · exact .inl pending
    have sameCreated : changed.created = reached.created :=
      congrArg Administration.created (closeOutDelisted_administration mutated)
    have ended := foldLoop_ends loop
      (closeOutDelisted_orders (intradayOrder_lawful id _) waits mutated) session
      (sameCreated ▸ window) late resolved
    exact finishFold_orders (endedOrder_lawful id true) ended finished
  · exact persistMismatch_ends processing subdued found stored kind plain none

/-- A Monday's limit order that meets no bar, settled a week later. -/
theorem unseen_limit_ends :
    ∃ after, ([.submit (sampleWorld 739768 15) (limitIntent "entry" "SYM" .buy 100 20 739768),
        .settle (sampleWorld 739775 22) 739775].foldl step sampleAccount).orders.lookup 1 =
          some after ∧ after.status ≠ .pending := by
  have queued : ∃ order, ([.submit (sampleWorld 739768 15)
      (limitIntent "entry" "SYM" .buy 100 20 739768)].foldl step sampleAccount).orders.lookup 1 =
        some order ∧ ∃ details, order.details = some details ∧ intraday details.orderType = true ∧
          details.sessionDate = 739768 := by
    decide +kernel
  obtain ⟨order, found, details, stored, kind, session⟩ := queued
  exact intraday_orders_end sampleAccount_created
    [.submit (sampleWorld 739768 15) (limitIntent "entry" "SYM" .buy 100 20 739768)] rfl
    (sampleWorld 739775 22) 739775 1 (by decide +kernel) found stored kind
    (by rw [session]; decide +kernel) (by rw [session]; decide +kernel) (by decide +kernel)

/-- A steady world whose daily bars never arrive. -/
def barlessWorld (day hours : Int) : World daylightTime :=
  { sampleWorld day hours with
    market := { (steadyMarket 10 ten_positive : Market daylightTime) with
      dailyBar := fun _ _ _ _ => none } }

/-- Monday's order for the next open executes on Tuesday. A week after, with no bar for
that session, it is still pending. -/
theorem next_open_waits_on :
    ¬ ∀ (operations : List (Operation daylightTime)) (world : World daylightTime) (day : Int)
        (id : OrderId) (order : Order) (details : OrderDetails),
      (operations.foldl step sampleAccount).orders.lookup id = some order →
      order.details = some details → details.orderType = .nextOpen →
      nextSession order.signalDate ≤ day →
      pendingMaxDays ≤ sessionsBetween (nextSession order.signalDate) (dateOf world.now) →
      world.market.dailyBar sampleAccount.settings.priceSource order.ticker
        (nextSession order.signalDate) world.now = none →
      ∃ after, (step (operations.foldl step sampleAccount) (.settle world day)).orders.lookup id =
        some after ∧ after.status ≠ .pending := by
  intro ends
  have queued : ∃ order, ([.submit (barlessWorld 739768 22)
      (sampleIntent "entry" "SYM" .buy 100 739768)].foldl step sampleAccount).orders.lookup 1 =
        some order ∧ ∃ details, order.details = some details ∧ details.orderType = .nextOpen ∧
          order.signalDate = 739768 := by
    decide +kernel
  obtain ⟨order, found, details, stored, type, signal⟩ := queued
  obtain ⟨after, present, closed⟩ := ends [.submit (barlessWorld 739768 22)
    (sampleIntent "entry" "SYM" .buy 100 739768)] (barlessWorld 739775 22) 739775 1 order details
    found stored type (by rw [signal]; decide +kernel) (by rw [signal]; decide +kernel) rfl
  have waiting : ∃ after, ([.submit (barlessWorld 739768 22)
      (sampleIntent "entry" "SYM" .buy 100 739768),
      .settle (barlessWorld 739775 22) 739775].foldl step sampleAccount).orders.lookup 1 =
        some after ∧ after.status = .pending := by
    decide +kernel
  obtain ⟨still, kept, pending⟩ := waiting
  obtain rfl : after = still := Option.some.inj (present.symm.trans kept)
  exact closed pending

end TradingEngine.Accounts
