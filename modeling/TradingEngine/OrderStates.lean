import TradingEngine.OrderFlow

/-!
# Agreement of the two order tables

The coarse status of an order follows the state of its details, and states move
along the lifecycle only. Strict writes keep both. The loose ones break the
agreement: settlement stores an expired order as rejected, a reconciliation of
stale orders writes the order table alone, and a settlement cancels orders in
the order table that it did not plan to cancel in the details.
-/

namespace TradingEngine.Accounts

open KeyedTables OrderTypes Nyse Ledger Costs Fills Runs

variable {zone : Zone}

/-- The state of an order's details. -/
def Order.state (order : Order) : Option OrderState := order.details.map OrderDetails.state

/-- Every order with details has the coarse status of its state. -/
def Agrees (orders : Table OrderId Order) : Prop :=
  ∀ id order, orders.lookup id = some order → ∀ state ∈ order.state,
    coarseStatus state = some order.status

/-- An order is still there, with its state kept or moved by one transition. -/
def Forward (before after : Table OrderId Order) : Prop :=
  ∀ id order, before.lookup id = some order → ∃ next, after.lookup id = some next ∧
    (next.state = order.state ∨ ∃ old new, order.state = some old ∧ next.state = some new ∧
      canTransition old new = true)

/-- A row of an account: its status is that of its state, which is past receipt. -/
def Order.Sound (order : Order) : Prop :=
  ∀ state ∈ order.state, coarseStatus state = some order.status ∧ state ≠ .received

/-- What happens to one row: nothing, or the end of a queued order. -/
structure Order.Moved (before after : Order) : Prop where
  ticker : after.ticker = before.ticker
  state : after.state = before.state ∨ (before.state = some .queued ∧
    ∃ new, after.state = some new ∧ canTransition .queued new = true)

theorem Order.Sound.pending {order : Order} (sound : order.Sound)
    (queued : order.state = some .queued) : order.status = .pending := by
  have coarse := (sound .queued queued).1
  simpa [coarseStatus] using coarse.symm

/-- A pending row without a loose end is queued, if it has details. -/
theorem Order.Sound.queued {order : Order} (sound : order.Sound)
    (pending : order.status = .pending) : order.state = none ∨ order.state = some .queued := by
  cases stored : order.state with
  | none => exact .inl rfl
  | some state =>
    right
    obtain ⟨coarse, past⟩ := sound state stored
    rw [pending] at coarse
    cases state <;> simp_all [coarseStatus]

theorem withState_state (order : Order) (state : OrderState) (reason : List Reason)
    (stateAt : Int) :
    (order.withState state reason stateAt).state = order.state.map fun _ => state := by
  simp [Order.withState, Order.state, Function.comp_def]

theorem cancel_state (order : Order) (reason : Reason) (stateAt : Int) :
    (order.cancel reason stateAt).state =
      order.state.map fun state => if state = .queued then .cancelled else state := by
  unfold Order.cancel Order.state
  cases order.details with
  | none => rfl
  | some details =>
    by_cases queued : details.state = .queued
    · simp [queued]
    · simp [queued]

theorem Queued.state {order : Order} (queued : Queued order) : order.state = some .queued := by
  obtain ⟨_, details, stored, state⟩ := queued
  simp [Order.state, stored, state]

/-- A strict write keeps a row sound and ends at most a queued order. -/
theorem Write.moved {order next : Order} (write : Write true order next) (sound : order.Sound) :
    next.Sound ∧ order.Moved next := by
  cases write with
  | @settled closed reason stateAt queued closes =>
    have state := withState_state order closed reason stateAt
    rw [queued.state] at state
    constructor
    · intro new held
      rw [state] at held
      cases held
      rcases closes with rfl | rfl | rfl <;> simp [coarseStatus, Order.withState, settledStatus]
    · refine ⟨rfl, .inr ⟨queued.state, _, state, ?_⟩⟩
      rcases closes with rfl | rfl | rfl <;> rfl
  | @waited details stateAt queued stored =>
    have state := withState_state order .queued (waitingReasons details.stateReason) stateAt
    rw [queued.state] at state
    constructor
    · intro new held
      rw [state] at held
      cases held
      simp [coarseStatus, Order.withState, settledStatus]
    · exact ⟨rfl, .inl (by rw [state, queued.state]; rfl)⟩
  | cancelled reason stateAt pending =>
    have state := cancel_state order reason stateAt
    rcases sound.queued pending with absent | queued
    · rw [absent] at state
      exact ⟨fun new held => by simp [state] at held, rfl, .inl (by rw [state, absent]; rfl)⟩
    · rw [queued] at state
      constructor
      · intro new held
        rw [state] at held
        cases held
        exact ⟨rfl, by decide⟩
      · exact ⟨rfl, .inr ⟨queued, _, state, rfl⟩⟩
  | lapsed _ _ _ loose => cases loose
  | stale reason pending loose =>
    rcases loose with impossible | bare
    · cases impossible
    · have absent : order.state = none := by simp [Order.state, bare]
      exact ⟨fun new held => by simp [Order.state, bare] at held, rfl, .inl rfl⟩
  | swept _ _ _ _ _ _ loose => cases loose

theorem NewOrder.sound {intake : Bool} {order : Order} (new : NewOrder intake order) : order.Sound := by
  cases new with
  | forced =>
    intro state held
    cases held
    exact ⟨rfl, nofun⟩
  | entered =>
    intro state held
    cases held
    exact ⟨rfl, nofun⟩

/-- Every row is sound, and the rows of an earlier table have moved at most once. -/
structure Tracked (before orders : Table OrderId Order) : Prop where
  sound : ∀ id order, orders.lookup id = some order → order.Sound
  moved : ∀ id order, before.lookup id = some order →
    ∃ next, orders.lookup id = some next ∧ order.Moved next

theorem Order.Moved.trans {first second third : Order} (earlier : first.Moved second)
    (later : second.Moved third) : first.Moved third := by
  refine ⟨later.ticker.trans earlier.ticker, ?_⟩
  rcases later.state with same | ⟨queued, new, ended, transition⟩
  · rw [same]
    exact earlier.state
  · rcases earlier.state with same | ⟨_, old, stopped, ends⟩
    · exact .inr ⟨same ▸ queued, new, ended, transition⟩
    · -- A row that already ended is not queued.
      rw [queued, Option.some.injEq] at stopped
      subst stopped
      cases ends

theorem tracked_lawful (before : Table OrderId Order) : OrderLaw true true (Tracked before) where
  rewritten := by
    intro orders change tracked writes
    have row : ∀ id order, orders.lookup id = some order →
        (change id order).Sound ∧ order.Moved (change id order) := by
      intro id order found
      rcases writes id order found with same | write
      · rw [same]
        exact ⟨tracked.sound id order found, rfl, .inl rfl⟩
      · exact write.moved (tracked.sound id order found)
    constructor
    · intro id order found
      rw [lookup_mapRows, Option.map_eq_some_iff] at found
      obtain ⟨old, stored, rfl⟩ := found
      exact (row id old stored).1
    · intro id order found
      obtain ⟨next, stored, moved⟩ := tracked.moved id order found
      refine ⟨change id next, ?_, moved.trans (row id next stored).2⟩
      rw [lookup_mapRows, stored]
      rfl
  inserted := by
    intro orders id order tracked fresh new
    constructor
    · intro other row found
      by_cases same : other = id
      · subst same
        rw [AList.lookup_insert, Option.some.injEq] at found
        exact found ▸ new.sound
      · rw [AList.lookup_insert_ne same] at found
        exact tracked.sound other row found
    · intro other row found
      obtain ⟨next, stored, moved⟩ := tracked.moved other row found
      have different : other ≠ id := by
        rintro rfl
        simp [fresh] at stored
      exact ⟨next, by rw [AList.lookup_insert_ne different, stored], moved⟩

/-- A sweep leaves an order alone that neither table selects. -/
theorem settleCancel_missed {ticker : Ticker} {effective now : Int} {planned : List OrderId}
    {id : OrderId} {order : Order}
    (missed : (decide (order.ticker = ticker) && decide (order.status = .pending)) = false)
    (untouched : ∀ details, order.details = some details →
      ¬ (id ∈ planned ∧ details.state = .queued)) :
    settleCancel ticker effective now planned id order = order := by
  obtain ⟨name, side, qty, signalDate, status, rejectReason, details⟩ := order
  cases details with
  | none => simp_all [settleCancel]
  | some row =>
    have kept := untouched row rfl
    simp_all [settleCancel]

variable {account : Account}

/-- A sweep that meets only planned orders cancels them in both tables. -/
theorem cancelSettled_tracked {world : World zone} {folded : Account} {terms : Terms}
    (planned : strays account terms folded = false)
    (tracked : Tracked account.orders folded.orders) :
    Tracked account.orders
      (cancelSettled world terms (pendingOf account terms.ticker) folded).orders := by
  unfold cancelSettled
  split
  · exact tracked
  · rename_i nonempty
    refine (tracked_lawful account.orders).rewritten _ _ tracked ?_
    intro id order found
    have listed : order.ticker = terms.ticker → order.status = .pending →
        id ∈ pendingOf account terms.ticker := by
      intro ticker pending
      simp only [strays, nonempty, ne_eq, not_false_eq_true, decide_true, Bool.true_and] at planned
      have inside : id ∈ pendingOf folded terms.ticker :=
        mem_pendingOf.mpr ⟨order, found, ticker, pending⟩
      simpa using List.any_eq_false.mp planned id inside
    by_cases hit : order.ticker = terms.ticker ∧ order.status = .pending
    · right
      have cancelled : settleCancel terms.ticker terms.effective world.now
          (pendingOf account terms.ticker) id order =
          order.cancel (.settlement terms.effective) world.now := by
        simp [settleCancel, Order.cancel, hit, listed hit.1 hit.2]
      rw [cancelled]
      exact .cancelled _ _ hit.2
    · left
      have kept : id ∈ pendingOf account terms.ticker → order.state ≠ some .queued := by
        intro inside queued
        obtain ⟨old, stored, ticker, _⟩ := mem_pendingOf.mp inside
        obtain ⟨next, now, moved⟩ := tracked.moved id old stored
        obtain rfl : order = next := Option.some.inj (found.symm.trans now)
        exact hit ⟨moved.ticker.trans ticker, (tracked.sound id order found).pending queued⟩
      have missed : (decide (order.ticker = terms.ticker) &&
          decide (order.status = .pending)) = false := by simpa using hit
      refine settleCancel_missed missed ?_
      rintro details stored ⟨inside, queued⟩
      exact kept inside (by simp [Order.state, stored, queued])

/-- One call without loose writes. -/
theorem step_tracked {operation : Operation zone}
    (sound : ∀ id order, account.orders.lookup id = some order → order.Sound)
    (orderly : Orderly account operation) :
    Tracked account.orders (step account operation).orders := by
  refine step_orders (tracked_lawful account.orders) ⟨sound, ?_⟩ (fun _ _ _ => rfl)
    (fun _ => orderly) ?_
  · intro id order found
    exact ⟨order, found, rfl, .inl rfl⟩
  · intro _ world terms folded _ _ planned tracked
    exact cancelSettled_tracked planned tracked

theorem Tracked.forward {before after : Table OrderId Order} (tracked : Tracked before after) :
    Forward before after := by
  intro id order found
  obtain ⟨next, stored, moved⟩ := tracked.moved id order found
  refine ⟨next, stored, ?_⟩
  rcases moved.state with same | ⟨queued, new, ended, transition⟩
  · exact .inl same
  · exact .inr ⟨.queued, new, queued, ended, transition⟩

/-- Whether an order has ended in a state. -/
def Ended (id : OrderId) (state : OrderState) (account : Account) : Prop :=
  ∃ order, account.orders.lookup id = some order ∧ order.state = some state

theorem Forward.ended {before after : Account} (forward : Forward before.orders after.orders)
    {id : OrderId} {state : OrderState} (final : terminal state = true)
    (ended : Ended id state before) : Ended id state after := by
  obtain ⟨order, found, held⟩ := ended
  obtain ⟨next, stored, same | ⟨old, new, was, _, transition⟩⟩ := forward id order found
  · exact ⟨next, stored, same.trans held⟩
  · -- A terminal state has no transition.
    obtain rfl : state = old := Option.some.inj (held.symm.trans was)
    simp [terminal] at final
    simp [canTransition, final] at transition

theorem createAccount_orders {spec : Spec} {capital : ℚ} {source : PriceSource}
    {rule : DayTradeRule} {allowShort : Bool} {now : Int}
    (created : createAccount zone spec capital source rule allowShort now = .ok account) :
    account.orders = ∅ := by
  rw [createAccount_ok created]
  rfl

/-- Throughout a run without loose writes every order has the status of its state, each
call moves states along the lifecycle, and an order that has ended keeps its state. -/
theorem order_states_agree {spec : Spec} {capital : ℚ} {source : PriceSource}
    {rule : DayTradeRule} {allowShort : Bool} {now : Int} {account : Account}
    (created : createAccount zone spec capital source rule allowShort now = .ok account)
    (operations : List (Operation zone)) (orderly : Admissible step Orderly account operations) :
    (∀ reached ∈ states step account operations, Agrees reached.orders) ∧
    Admissible step (fun state operation => Forward state.orders (step state operation).orders)
      account operations ∧
    ∀ earlier later, operations = earlier ++ later → ∀ id state, terminal state = true →
      Ended id state (earlier.foldl step account) →
      ∀ reached ∈ states step (earlier.foldl step account) later, Ended id state reached := by
  have initially : ∀ id order, account.orders.lookup id = some order → order.Sound := by
    intro id order found
    simp [createAccount_orders created] at found
  have kept : ∀ (state : Account) (operation : Operation zone),
      (∀ id order, state.orders.lookup id = some order → order.Sound) →
      Orderly state operation →
      ∀ id order, (step state operation).orders.lookup id = some order → order.Sound :=
    fun state operation sound allowed => (step_tracked sound allowed).sound
  have forward : Admissible step
      (fun state operation => Forward state.orders (step state operation).orders)
      account operations :=
    admissible_of_invariant _ kept (fun _ _ sound allowed => (step_tracked sound allowed).forward)
      initially orderly
  refine ⟨?_, forward, ?_⟩
  · intro reached member id order found state held
    exact (invariant_of_steps kept initially orderly reached member id order found state held).1
  · rintro earlier later rfl id state final ended
    exact invariant_of_steps (fun _ _ ends moves => Forward.ended moves final ends) ended
      (admissible_append.mp forward).2

/-- A steady world whose sessions end with one traded minute. -/
def closingMinuteWorld (day hours : Int) : World daylightTime :=
  { sampleWorld day hours with
    market :=
      { (steadyMarket 10 ten_positive : Market daylightTime) with
        minuteBars := fun _ _ day _ =>
          [⟨closed daylightTime day - minute, 10, 10, 10, 10, none, by norm_num⟩].filter fun bar =>
            decide (opened daylightTime day ≤ bar.ts) && decide (bar.ts < closed daylightTime day)
        minutes_within := by
          intro _ _ day _ bar listed
          simpa using (List.mem_filter.mp listed).2 } }

/-- A limit order for the rest of a session. -/
def limitIntent (name : String) (ticker : Ticker) (side : Side) (quantity limitPx : ℚ)
    (sessionDate : Int) : Intent :=
  ⟨name, ticker, true, .limit, side, quantity, some limitPx, sessionDate, none⟩

/-- A limit order that trades at the close, and one that the client takes back. -/
def limitSession : List (Operation daylightTime) :=
  [.submit (closingMinuteWorld 739768 15) (limitIntent "entry" "SYM" .buy 100 20 739768),
    .settle (closingMinuteWorld 739768 22) 739768,
    .submit (closingMinuteWorld 739768 23) (sampleIntent "exit" "SYM" .sell 100 739768),
    .cancel (closingMinuteWorld 739768 23) 2]

theorem limitSession_agrees :
    (((limitSession.foldl step sampleAccount).orders.lookup 1).bind Order.state) = some .filled ∧
    (∀ reached ∈ states step sampleAccount limitSession, Agrees reached.orders) ∧
    Admissible step (fun state operation => Forward state.orders (step state operation).orders)
      sampleAccount limitSession ∧
    ∀ earlier later, limitSession = earlier ++ later → ∀ id state, terminal state = true →
      Ended id state (earlier.foldl step sampleAccount) →
      ∀ reached ∈ states step (earlier.foldl step sampleAccount) later, Ended id state reached :=
  ⟨by decide +kernel, order_states_agree sampleAccount_created _ (by decide +kernel)⟩

/-- A limit order that no bar touches expires, and its row says that it was rejected. -/
theorem expired_limit_disagrees :
    ¬ ∀ reached ∈ states step sampleAccount
        [.submit (closingMinuteWorld 739768 15) (limitIntent "entry" "SYM" .buy 100 5 739768),
          .settle (closingMinuteWorld 739768 22) 739768],
      Agrees reached.orders := by
  intro agree
  have row : ∃ order, ([.submit (closingMinuteWorld 739768 15)
        (limitIntent "entry" "SYM" .buy 100 5 739768),
      .settle (closingMinuteWorld 739768 22) 739768].foldl step sampleAccount).orders.lookup 1 =
        some order ∧ order.state = some .expired ∧ order.status = .rejected := by
    decide +kernel
  obtain ⟨order, found, state, status⟩ := row
  have coarse := agree _ (by simp [states]) 1 order found .expired state
  simp [coarseStatus, status] at coarse

end TradingEngine.Accounts
