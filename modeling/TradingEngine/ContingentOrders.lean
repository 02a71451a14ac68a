import TradingEngine.PendingOrders
import TradingEngine.Rosters
import TradingEngine.SafeFolds

/-!
# Contingent orders

A contingent order closes what its parent opened. Intake admits it while the parent is
queued, for a session no earlier than the parent's and for a time of day no earlier than
the parent's. A fold lets it execute once the parent's fill is recorded, for at most what
the parent filled and at most what is held. An order that finds its parent still pending
is rejected when the parent's time is the later one; so an order that outlives its
parent's fill has only later times left.
-/

namespace TradingEngine.Accounts

open KeyedTables OrderTypes Nyse Ledger Costs Fills Runs

variable {zone : Zone}

/-- What no write changes in an order. -/
structure OrderTerms where
  side : Side
  signalDate : Int
  orderType : OrderTypes.OrderType
  sessionDate : Int
  receivedAt : Int
  parent : Option OrderId

def Order.terms (order : Order) : Option OrderTerms :=
  order.details.map fun details =>
    ⟨order.side, order.signalDate, details.orderType, details.sessionDate, details.receivedAt,
      details.contingentOn⟩

/-- The session on which an order is due. -/
def OrderTerms.session (terms : OrderTerms) : Int :=
  if terms.orderType = .nextOpen then nextSession terms.signalDate else terms.sessionDate

/-- The time at which an order stands in its session when it finds no price. -/
def OrderTerms.earliest (zone : Zone) (terms : OrderTerms) : Int :=
  match terms.orderType with
  | .nextOpen => opened zone (nextSession terms.signalDate)
  | .moo => opened zone terms.sessionDate
  | .moc => closed zone terms.sessionDate
  | .market | .limit | .limitOnOpen => terms.receivedAt + minute

theorem withState_terms (order : Order) (state : OrderState) (reason : List Reason) (stateAt : Int) :
    (order.withState state reason stateAt).terms = order.terms := by
  unfold Order.withState Order.terms
  cases order.details <;> rfl

theorem cancel_terms (order : Order) (reason : Reason) (stateAt : Int) :
    (order.cancel reason stateAt).terms = order.terms := by
  unfold Order.cancel Order.terms
  cases order.details with
  | none => rfl
  | some details =>
    dsimp only [Option.map_some]
    split <;> rfl

theorem Write.terms {strict : Bool} {order next : Order} (write : Write strict order next) :
    next.terms = order.terms := by
  cases write with
  | settled reason stateAt => exact withState_terms _ _ _ _
  | waited stateAt => exact withState_terms _ _ _ _
  | cancelled reason stateAt => exact cancel_terms _ _ _
  | lapsed reason stateAt => exact withState_terms _ _ _ _
  | stale reason => rfl
  | swept ticker effective now planned id =>
    unfold settleCancel Order.terms
    cases order.details with
    | none => rfl
    | some details =>
      dsimp only [Option.map_some]
      split <;> rfl

/-- Writes queue no order that was not queued. -/
theorem Write.requeued {order next : Order} (write : Write false order next)
    (queued : Queued next) : Queued order := by
  by_contra closed
  by_cases pending : order.status = .pending
  · cases write with
    | settled reason stateAt waits => exact closed waits
    | waited stateAt waits => exact closed waits
    | cancelled reason stateAt => exact absurd queued.1 (by simp [Order.cancel])
    | lapsed reason stateAt waits => exact closed waits
    | stale reason => exact absurd queued.1 (by simp)
    | swept ticker effective now planned id owned =>
      obtain ⟨status, details, stored, state⟩ := queued
      unfold settleCancel at status stored
      cases known : order.details with
      | none => simp [known] at stored
      | some old =>
        simp only [known, Option.map_some, Option.some.injEq] at stored
        split at stored
        · rw [← stored] at state
          cases state
        · exact closed ⟨pending, old, known, stored ▸ state⟩
  · exact write.closed pending queued.1

variable {id : OrderId}

theorem pendingRow_terms {order : Order} {row : PendingRow}
    (pending : pendingRow id order = some row) :
    order.terms = some ⟨row.side, row.signalDate, row.orderType, row.sessionDate, row.receivedAt,
      row.contingentOn⟩ := by
  unfold pendingRow at pending
  split at pending
  · cases pending
  · rename_i details stored
    split at pending
    · cases pending
      simp [Order.terms, stored]
    · cases pending

/-- The terms that an order table keeps for a number. -/
def termsOf (orders : Table OrderId Order) (id : OrderId) : Option OrderTerms :=
  (orders.lookup id).bind Order.terms

theorem termsOf_rewritten {strict : Bool} {orders : Table OrderId Order} {change : OrderId → Order → Order}
    (writes : ∀ id order, orders.lookup id = some order →
      change id order = order ∨ Write strict order (change id order)) (id : OrderId) :
    termsOf (mapRows change orders) id = termsOf orders id := by
  unfold termsOf
  rw [lookup_mapRows]
  cases found : orders.lookup id with
  | none => rfl
  | some order =>
    rcases writes id order found with same | write
    · simp [same]
    · simp [write.terms]

/-- How a parent stands to a contingent order. -/
structure Precedes (first terms : OrderTerms) : Prop where
  signal : first.signalDate = terms.signalDate
  session : first.session ≤ terms.session
  sameDay : first.session = terms.session ∨ terms.orderType = .nextOpen

/-- Every contingent order closes and has an earlier order as its parent. -/
def Parented (orders : Table OrderId Order) : Prop :=
  ∀ id terms parent, termsOf orders id = some terms → terms.parent = some parent →
    terms.side.closing = true ∧ parent < id ∧
      ∃ first, termsOf orders parent = some first ∧ Precedes first terms

theorem forcedOrder_terms {ticker : Ticker} {side : Side} {qty : ℚ} {orderType : OrderTypes.OrderType}
    {unlimited : orderType ≠ .limit} {sessionDate receivedAt : Int} {reason : Reason} :
    (forcedOrder ticker side qty orderType unlimited sessionDate receivedAt reason).terms =
      some ⟨side, sessionDate, orderType, sessionDate, receivedAt, none⟩ := rfl

/-- A table with one more order keeps its parents when the order has none or finds one. -/
theorem Parented.insert {orders : Table OrderId Order} {order : Order}
    (parented : Parented orders) (missing : orders.lookup id = none)
    (own : ∀ terms parent, order.terms = some terms → terms.parent = some parent →
      terms.side.closing = true ∧ parent < id ∧
        ∃ first, termsOf orders parent = some first ∧ Precedes first terms) :
    Parented (orders.insert id order) := by
  have others : ∀ other, other ≠ id → termsOf (orders.insert id order) other = termsOf orders other := by
    intro other different
    unfold termsOf
    rw [AList.lookup_insert_ne different]
  have parents : ∀ parent first, termsOf orders parent = some first →
      termsOf (orders.insert id order) parent = some first := by
    intro parent first known
    rw [others parent, known]
    rintro rfl
    simp [termsOf, missing] at known
  intro other terms parent found contingent
  by_cases same : other = id
  · subst same
    simp only [termsOf, AList.lookup_insert, Option.bind_some] at found
    obtain ⟨closing, earlier, first, known, precedes⟩ := own terms parent found contingent
    exact ⟨closing, earlier, first, parents parent first known, precedes⟩
  · rw [others other same] at found
    obtain ⟨closing, earlier, first, known, precedes⟩ := parented other terms parent found contingent
    exact ⟨closing, earlier, first, parents parent first known, precedes⟩

theorem parented_lawful : OrderLaw false false Parented where
  rewritten := by
    intro orders change parented writes id terms parent found contingent
    rw [termsOf_rewritten writes] at found
    obtain ⟨closing, earlier, first, known, precedes⟩ := parented id terms parent found contingent
    exact ⟨closing, earlier, first, by rw [termsOf_rewritten writes, known], precedes⟩
  inserted := by
    intro orders id order parented missing new
    refine parented.insert missing fun terms parent own contingent => ?_
    cases new with
    | forced =>
      rw [forcedOrder_terms, Option.some.injEq] at own
      rw [← own] at contingent
      cases contingent
    | entered intent parent now limited session accepting => cases accepting

/-- The details of an order are of its own signal date. -/
def Dated (orders : Table OrderId Order) : Prop :=
  ∀ id order, orders.lookup id = some order → ∀ terms, order.terms = some terms →
    terms.sessionDate = terms.signalDate

theorem dated_lawful (intake : Bool) : OrderLaw false intake Dated := by
  refine .everyRow ?_ ?_
  · intro order next write dated terms known
    rw [write.terms] at known
    exact dated terms known
  · intro order new terms known
    cases new with
    | forced =>
      rw [forcedOrder_terms, Option.some.injEq] at known
      rw [← known]
    | entered intent parent now limited session accepting =>
      simp only [Order.terms, intentOrder, Option.map_some, Option.some.injEq] at known
      rw [← known]

variable {account : Account} {parent : OrderId}

/-- Intake admits a queued parent whose session and time of day do not come later. -/
theorem contingentParent_precedes {intent : Intent}
    (dated : Dated account.orders)
    (found : contingentParent account intent = .ok (some parent)) :
    intent.side.closing = true ∧ ∃ order first, account.orders.lookup parent = some order ∧
      Queued order ∧ order.terms = some first ∧
      ∀ now limited terms, (intentOrder intent (some parent) now limited).terms = some terms →
        Precedes first terms := by
  unfold contingentParent at found
  split at found
  · cases found
  · split at found
    · cases found
    · split at found
      · cases found
      · rename_i order present
        split at found
        · rename_i accepted
          cases found
          unfold acceptableParent at accepted
          split at accepted
          · cases accepted
          · rename_i details stored
            simp only [Bool.and_eq_true, Bool.or_eq_true, decide_eq_true_eq] at accepted
            obtain ⟨⟨⟨⟨⟨⟨⟨sides, _⟩, signal⟩, status⟩, state⟩, _⟩, phases⟩, _⟩ := accepted
            have closing : intent.side.closing = true := by
              rcases sides with ⟨side, -⟩ | ⟨side, -⟩ <;> rw [side] <;> rfl
            refine ⟨closing, order, _, present, ⟨status, details, stored, state⟩,
              by rw [Order.terms, stored]; rfl, ?_⟩
            intro now limited terms own
            simp only [intentOrder, Order.terms, Option.map_some, Option.some.injEq] at own
            subst own
            have session : details.sessionDate = order.signalDate :=
              dated _ order present _ (by rw [Order.terms, stored]; rfl)
            refine ⟨signal, ?_, ?_⟩
            · simp only [OrderTerms.session, session, signal]
              cases parentType : details.orderType <;> cases type : intent.orderType <;>
                simp [parentType, type, executionPhase, (nextSession_later _).le] at phases ⊢
            · simp only [OrderTerms.session, session, signal]
              cases parentType : details.orderType <;> cases type : intent.orderType <;>
                simp [parentType, type, executionPhase] at phases ⊢
        · cases found

/-- Every waiting contingent order has only times left from its parent's fill on. -/
def ChildrenWait (zone : Zone) (fills : Table OrderId FillRow) (orders : Table OrderId Order) : Prop :=
  ∀ id order, orders.lookup id = some order → Queued order → ∀ terms, order.terms = some terms →
    ∀ parent fill ts, terms.parent = some parent → fills.lookup parent = some fill →
      fill.fillTs = some ts → ts ≤ terms.earliest zone

theorem childrenWait_lawful (zone : Zone) (fills : Table OrderId FillRow) :
    OrderLaw false false (ChildrenWait zone fills) := by
  refine .everyRow ?_ ?_
  · intro order next write waits queued terms known
    rw [write.terms] at known
    exact waits (write.requeued queued) terms known
  · intro order new queued terms known parent fill ts contingent
    cases new with
    | forced =>
      rw [forcedOrder_terms, Option.some.injEq] at known
      rw [← known] at contingent
      cases contingent
    | entered intent parent now limited session accepting => cases accepting

/-- A fill no earlier than the fill of its order's parent and no larger. -/
def Follows (fills : Table OrderId FillRow) (fill : FillRow) (parent : OrderId) : Prop :=
  ∃ first, fills.lookup parent = some first ∧
    (∃ earlier later, first.fillTs = some earlier ∧ fill.fillTs = some later ∧ earlier ≤ later) ∧
    fill.qty ≤ first.qty

/-- Every recorded fill has its time, belongs to a filled order and follows the fill of its
parent. -/
def ChildrenFollow (fills : Table OrderId FillRow) (orders : Table OrderId Order) : Prop :=
  ∀ id fill, fills.lookup id = some fill → ∃ order, orders.lookup id = some order ∧
    (order.status = .filled ∧ fill.fillTs.isSome) ∧
    ∀ terms parent, order.terms = some terms → terms.parent = some parent → Follows fills fill parent

theorem childrenFollow_lawful (fills : Table OrderId FillRow) :
    OrderLaw false true (ChildrenFollow fills) := by
  refine .all fun id => .all fun fill => .all fun _ => .oneRow id ?_
  rintro order next write ⟨⟨filled, timed⟩, follows⟩
  refine ⟨⟨write.filled filled, timed⟩, ?_⟩
  rw [write.terms]
  exact follows

/-- The orders of an account and its recorded fills in their right relation. -/
structure Lineage (zone : Zone) (fills : Table OrderId FillRow) (orders : Table OrderId Order) :
    Prop where
  dated : Dated orders
  parented : Parented orders
  waits : ChildrenWait zone fills orders
  follow : ChildrenFollow fills orders

/-- Taking in an intent keeps the relation: a parent that is admitted has no fill yet. -/
theorem submit_lineage {world : World zone} {intent : Intent}
    (lineage : Lineage zone account.ledger.fills account.orders) :
    Lineage zone (submit world account intent).ledger.fills (submit world account intent).orders := by
  unfold submit
  split
  · rename_i accepted receipt submitted
    rcases submitIntent_ok submitted with ⟨rfl, _⟩ | ⟨valid, parent, _, found, _, rfl⟩
    · exact lineage
    · have missing := nextOrderId_missing world.orderSequence account.orders
      have entered : NewOrder true (intentOrder intent parent world.now (validIntent_limited valid)) :=
        .entered intent parent world.now _ (validIntent_session valid) rfl
      have own : ∀ terms other, (intentOrder intent parent world.now
          (validIntent_limited valid)).terms = some terms → terms.parent = some other →
          parent = some other ∧ terms.side = intent.side := by
        intro terms other known contingent
        simp only [intentOrder, Order.terms, Option.map_some, Option.some.injEq] at known
        subst known
        exact ⟨contingent, rfl⟩
      refine ⟨?_, ?_, ?_, ?_⟩
      · exact (dated_lawful true).inserted _ _ _ lineage.dated missing entered
      · refine lineage.parented.insert missing fun terms other known contingent => ?_
        obtain ⟨rfl, side⟩ := own terms other known contingent
        obtain ⟨closing, order, first, present, queued, stored, precedes⟩ :=
          contingentParent_precedes lineage.dated found
        have numbered : other < nextOrderId world.orderSequence account.orders := by
          have key : other ∈ account.orders.keys :=
            AList.mem_keys.mp (AList.lookup_isSome.mp (by rw [present]; rfl))
          exact Nat.lt_succ_of_le (le_foldr_max key)
        exact ⟨by rw [side]; exact closing, numbered, first, by simp [termsOf, present, stored],
          precedes _ _ terms known⟩
      · intro id order present queued terms known other fill ts contingent recorded
        by_cases same : id = nextOrderId world.orderSequence account.orders
        · subst same
          rw [AList.lookup_insert, Option.some.injEq] at present
          subst present
          obtain ⟨rfl, -⟩ := own terms other known contingent
          obtain ⟨-, order, first, present, queued, -⟩ :=
            contingentParent_precedes lineage.dated found
          obtain ⟨filled, there, ⟨status, -⟩, -⟩ := lineage.follow other fill recorded
          rw [present] at there
          cases there
          exact absurd queued.1 (by rw [status]; decide)
        · rw [AList.lookup_insert_ne same] at present
          exact lineage.waits id order present queued terms known other fill ts contingent recorded
      · exact (childrenFollow_lawful account.ledger.fills).inserted _ _ _ lineage.follow missing entered
  · exact lineage

/-- An order passes the checks for at most what its parent filled. -/
theorem preflight_parent {world : World zone} {session : Session}
    {row : PendingRow} {qty : ℚ}
    (ready : preflight world session account row = .go qty)
    (contingent : row.contingentOn = some parent) :
    ∃ first, account.ledger.fills.lookup parent = some first ∧ qty ≤ first.qty := by
  unfold preflight at ready
  rw [contingent] at ready
  split at ready
  · cases ready
  · split at ready
    · cases ready
    · split at ready
      · cases ready
      · cases found : account.ledger.fills.lookup parent with
        | some first =>
          simp only [contingentQuantity, found] at ready
          exact ⟨first, rfl, (sizedPreflight_atMost ready).trans (min_le_right _ _)⟩
        | none =>
          simp only [contingentQuantity, found] at ready
          split at ready
          · cases ready
          · split at ready <;> cases ready
          · rename_i filled
            split at filled
            · cases filled
            · split at filled <;> cases filled
          · rename_i independent
            split at independent
            · cases independent
            · split at independent <;> cases independent

/-- A fill that an order records in its turn: after the parent's fill and within it and,
where it closes, within what is held. -/
structure Recorded (account : Account) (day : Int) (row : PendingRow) (result : FillResult)
    (fill : FillRow) : Prop where
  sides : fill.side = row.side
  priced : ∃ terms, result = .filled terms ∧ fill.fillTs = some terms.fillTs ∧
    dateOf terms.fillTs = day
  parents : ∀ parent, row.contingentOn = some parent →
    ∃ first, account.ledger.fills.lookup parent = some first ∧ fill.qty ≤ first.qty
  held : fill.side.closing = true → fill.qty ≤ |(account.book.position fill.ticker).qty|

/-- What the settlement of an order does to the fills. -/
theorem settleOrder_recorded {world : World zone} {session : Session} {begun : Account}
    {row : PendingRow} {result : FillResult} {outcome : Account × Settled}
    (attempted : result = fillAttempt world begun row session.day)
    (settled : settleOrder world session account row result = .ok outcome) :
    outcome.1.ledger.fills = account.ledger.fills ∨
      (account.ledger.fills.lookup row.orderId = none ∧
        outcome.1.orders = rewriteOrder row.orderId
          (Order.withState .filled row.stateReason world.now) account.orders ∧
        ∃ fill, outcome.1.ledger.fills = account.ledger.fills.insert row.orderId fill ∧
          Recorded account session.day row result fill) := by
  obtain ⟨-, same⟩ | ⟨qty, terms, flagged, ready, priced, execution, -, recorded, written⟩ :=
    settleOrder_books settled
  · exact .inl same
  · have unfilled := execution.unfilled
    rw [afterPdt_ledger] at unfilled
    refine .inr ⟨unfilled, written, _, recorded, rfl, ?_, ?_, ?_⟩
    · have dated := (fillAttempt_filled (attempted.symm.trans priced)).dated
      exact ⟨terms, priced, rfl, dated⟩
    · intro parent contingent
      obtain ⟨first, found, within⟩ := preflight_parent ready contingent
      exact ⟨first, found, execution.atMost.trans within⟩
    · intro closing
      rcases applyFill_cases execution.filled with ⟨_, rejected⟩ | ⟨traded, _, _, _, quantity, _, applied⟩
      · have nothing := execution.traded
        rw [rejected] at nothing
        exact absurd nothing (lt_irrefl _)
      · have sided := (fillQty_traded quantity).sided
        rw [afterPdt_book] at sided
        have amount : execution.applied.qty = traded := by rw [applied]
        change execution.applied.qty ≤ |(account.book.position row.ticker).qty|
        change row.side.closing = true at closing
        rw [amount]
        cases side : row.side with
        | sell =>
          simp only [executedFill, side] at sided
          exact sided.2.trans (le_abs_self _)
        | cover =>
          simp only [executedFill, side] at sided
          exact sided.2.trans (neg_le_abs _)
        | buy => simp [side, Side.closing] at closing
        | short => simp [side, Side.closing] at closing

/-- A recorded fill is old or was recorded at a time of an interval of the past. -/
def RecordedBy (past : Int → Prop) (old fills : Table OrderId FillRow) : Prop :=
  ∀ id fill, fills.lookup id = some fill →
    old.lookup id = some fill ∨ ∃ ts, fill.fillTs = some ts ∧ past ts

theorem RecordedBy.trans {past : Int → Prop} {old between fills : Table OrderId FillRow}
    (earlier : RecordedBy past old between) (later : RecordedBy past between fills) :
    RecordedBy past old fills := by
  intro id fill found
  rcases later id fill found with known | recorded
  · exact earlier id fill known
  · exact .inr recorded

theorem RecordedBy.of_eq {past : Int → Prop} {old fills : Table OrderId FillRow}
    (same : fills = old) : RecordedBy past old fills :=
  fun _ _ found => .inl (same ▸ found)

variable {visit : Account × Item}

/-- An entry of a session records at most the fill of the order that it executes. -/
theorem applyItem_records {world : World zone} {settings : AccountSettings} {begun : Account}
    {day : Int} {sequence : List Event} {past : Int → Prop}
    (visited : visit ∈ sessionVisits world settings begun day sequence) {next : Account}
    (inside : ∀ row result ts, visit.2 = .execute row result → result.fillTs = some ts →
      dateOf ts = day → past ts)
    (applied : applyItem world (openSession world settings begun day) visit.1 visit.2 = .ok next) :
    RecordedBy past visit.1.ledger.fills next.ledger.fills := by
  obtain ⟨state, item⟩ := visit
  cases executes : item.order with
  | none => exact .of_eq (applyItem_booksOnly executes applied).fills
  | some id =>
    cases item with
    | execute row result =>
      obtain ⟨outcome, settled, rfl⟩ := map_ok.mp applied
      obtain ⟨_, _, _, _, _, _, _, attempted⟩ := executing_order visited
      obtain same | ⟨-, -, fill, recorded, ⟨-, ⟨terms, rfl, own, dated⟩, -, -⟩⟩ :=
        settleOrder_recorded attempted settled
      · exact .of_eq same
      · intro other known found
        rw [recorded] at found
        by_cases same : other = row.orderId
        · subst same
          rw [AList.lookup_insert, Option.some.injEq] at found
          subst found
          exact .inr ⟨terms.fillTs, own, inside row _ terms.fillTs rfl rfl dated⟩
        · rw [AList.lookup_insert_ne same] at found
          exact .inl found
    | _ => cases executes

theorem sessionItems_ordered (world : World zone) (account : Account) (day : Int)
    (sequence : List Event) :
    (sessionItems world account day sequence).Pairwise fun a b => a.key zone day ≤ b.key zone day :=
  List.pairwise_insertionSort _ _

theorem execute_key (zone : Zone) (day : Int) (row : PendingRow) {result : FillResult} {ts : Int}
    (attempt : result.fillTs = some ts) :
    (ofLex ((Item.execute row result).key zone day)).1 = ts := by
  simp [Item.key, executionKey, attempt]

/-- An entry leaves recorded fills as they are. -/
theorem applyItem_keeps {world : World zone} {session : Session} {next : Account}
    {item : Item} {fill : FillRow} (found : account.ledger.fills.lookup id = some fill)
    (applied : applyItem world session account item = .ok next) :
    next.ledger.fills.lookup id = some fill := by
  cases executes : item.order with
  | none => rw [(applyItem_booksOnly executes applied).fills, found]
  | some order =>
    cases item with
    | execute row result =>
      obtain ⟨outcome, settled, rfl⟩ := map_ok.mp applied
      obtain ⟨-, same⟩ | ⟨_, _, _, _, _, execution, _, inserted, _⟩ := settleOrder_books settled
      · rw [same, found]
      · have unfilled := execution.unfilled
        rw [afterPdt_ledger] at unfilled
        have different : id ≠ row.orderId := by
          rintro rfl
          rw [found] at unfilled
          cases unfilled
        rw [inserted, AList.lookup_insert_ne different, found]
    | _ => cases executes

/-- In its turn an entry finds the fills from before the session and those no later than it. -/
theorem visit_recorded {world : World zone} {settings : AccountSettings} {begun : Account}
    {day : Int} {sequence : List Event}
    (visited : visit ∈ sessionVisits world settings begun day sequence) :
    RecordedBy (· ≤ (ofLex (visit.2.key zone day)).1) begun.ledger.fills visit.1.ledger.fills := by
  refine visitedM_before (fun state => RecordedBy (· ≤ (ofLex (visit.2.key zone day)).1)
    begun.ledger.fills state.ledger.fills) (sessionItems_ordered world begun day sequence) (.of_eq rfl)
    visit visited ?_
  intro earlier earlierVisited before next kept applied
  refine kept.trans (applyItem_records earlierVisited ?_ applied)
  intro row result ts shape attempt _
  have keys := Prod.Lex.monotone_fst _ _ before
  rw [shape] at keys
  rwa [execute_key zone day row attempt] at keys

theorem lookup_prepared {items others : List Prepared} {item : Prepared} (key : Prepared → ExecutionKey)
    (distinct : (items.map fun item => item.1.orderId).Nodup) (listed : item ∈ items) :
    ((items ++ others).map fun item => (item.1.orderId, key item)).lookup item.1.orderId =
      some (key item) := by
  induction items with
  | nil => cases listed
  | cons first rest ih =>
    obtain ⟨fresh, later⟩ := List.nodup_cons.mp distinct
    rw [List.cons_append, List.map_cons, List.lookup_cons]
    rcases List.mem_cons.mp listed with rfl | inside
    · simp
    · have different : (item.1.orderId == first.1.orderId) = false := by
        rw [beq_eq_false_iff_ne]
        intro same
        exact fresh (List.mem_map.mpr ⟨item, inside, same⟩)
      rw [different]
      exact ih later inside

theorem session_key {world : World zone} (settings : AccountSettings) {day : Int}
    {row : PendingRow} {result : FillResult}
    (listed : (row, result) ∈ localPrepared world account day) :
    (openSession world settings account day).keys.lookup row.orderId =
      some (executionKey zone row result day) := by
  have distinct : ((localPrepared world account day).map fun item => item.1.orderId).Nodup := by
    unfold localPrepared
    rw [List.map_map]
    exact List.pairwise_map.mpr ((pendingRows_distinct account).filter fun row => due row day)
  exact lookup_prepared (fun item => executionKey zone item.1 item.2 day) distinct listed

/-- An order that finds no fill of a parent with a later key is closed in its turn. -/
theorem preflight_unrecorded {world : World zone} {session : Session}
    {row : PendingRow} (contingent : row.contingentOn = some parent)
    (missing : account.ledger.fills.lookup parent = none) (later : session.parentLater row = true) :
    ∃ state reason, preflight world session account row = .stop state reason := by
  unfold preflight
  rw [contingent]
  split
  · exact ⟨_, _, rfl⟩
  · split
    · exact ⟨_, _, rfl⟩
    · split
      · exact ⟨_, _, rfl⟩
      · simp only [contingentQuantity, missing]
        split
        · exact ⟨_, _, rfl⟩
        · exact ⟨_, _, rfl⟩
        · rename_i filled
          split at filled
          · cases filled
          · split at filled <;> cases filled
        · rename_i independent
          split at independent
          · cases independent
          · split at independent <;> cases independent

theorem pending_key {row : PendingRow} {terms : OrderTerms} {day : Int}
    (known : terms = ⟨row.side, row.signalDate, row.orderType, row.sessionDate, row.receivedAt,
      row.contingentOn⟩) (isDue : due row day = true) (world : World zone) :
    (ofLex ((Item.execute (prepareOrder world row day) .pending).key zone day)).1 =
      terms.earliest zone := by
  subst known
  unfold due at isDue
  cases type : row.orderType <;> simp [type] at isDue <;>
    simp [Item.key, executionKey, FillResult.fillTs, OrderTerms.earliest, prepareOrder, type, isDue]

/-- An attempt prices an order no earlier than its earliest time. -/
theorem fillAttempt_earliest {world : World zone} {row : PendingRow}
    {terms : OrderTerms} {day : Int} {priced : FillTerms}
    (known : terms = ⟨row.side, row.signalDate, row.orderType, row.sessionDate, row.receivedAt,
      row.contingentOn⟩) (isDue : due row day = true)
    (filled : fillAttempt world account row day = .filled priced) :
    terms.earliest zone ≤ priced.fillTs := by
  subst known
  unfold due at isDue
  unfold fillAttempt at filled
  dsimp only at filled
  have eligible : ∀ bar ∈ eligibleMinutes world.market account.settings.priceSource row day world.now,
      row.receivedAt + minute ≤ bar.ts + minute := by
    intro bar listed
    have after := of_decide_eq_true (List.mem_filter.mp listed).2
    unfold minute at after ⊢
    omega
  split at filled
  · cases filled
  · split at filled
    · rename_i type
      simp only [type, if_true, decide_eq_true_eq] at isDue
      unfold attemptNextOpenFill at filled
      split at filled
      · cases filled
      · split at filled
        · split at filled <;> cases filled
        · simp [OrderTerms.earliest, type, isDue, (v2Result_filled filled).2.2.2.1]
    · rename_i type
      simp only [type, reduceCtorEq, if_false, decide_eq_true_eq] at isDue
      unfold attemptAuctionFill at filled
      split at filled
      · cases filled
      · split at filled
        · cases filled
        · split at filled
          · cases filled
          · simp [OrderTerms.earliest, type, isDue, (v2Result_filled filled).2.2.2.1]
    · rename_i type
      simp only [type, reduceCtorEq, if_false, decide_eq_true_eq] at isDue
      unfold attemptAuctionFill at filled
      split at filled
      · cases filled
      · split at filled
        · cases filled
        · split at filled
          · cases filled
          · simp [OrderTerms.earliest, type, isDue, (v2Result_filled filled).2.2.2.1]
    · rename_i type
      unfold attemptIntradayMarketFill at filled
      split at filled
      · cases filled
      · split at filled
        · cases filled
        · split at filled
          · split at filled
            · cases filled
            · unfold missingIntradayResult at filled
              split at filled <;> cases filled
          · rename_i bar rest bars
            have after := eligible bar (by rw [bars]; exact .head _)
            simpa [OrderTerms.earliest, type, (v2Result_filled filled).2.2.2.1] using after
    · rename_i type
      unfold attemptIntradayLimitFill at filled
      dsimp only at filled
      split at filled
      · cases filled
      · split at filled
        · cases filled
        · split at filled
          · cases filled
          · split at filled
            · split at filled
              · cases filled
              · unfold missingIntradayResult at filled
                split at filled <;> cases filled
            · split at filled
              · split at filled
                · cases filled
                · unfold missingIntradayResult at filled
                  split at filled <;> cases filled
              · rename_i bar touched
                have after := eligible bar (List.mem_of_find?_eq_some touched)
                simpa [OrderTerms.earliest, type, (v2Result_filled filled).2.2.2.1] using after
    · cases filled

theorem Queued.row {order : Order} (queued : Queued order) (id : OrderId) :
    ∃ row, pendingRow id order = some row := by
  obtain ⟨status, details, stored, state⟩ := queued
  unfold pendingRow
  rw [stored]
  exact ⟨_, if_pos ⟨status, state⟩⟩

theorem due_session {row : PendingRow} {terms : OrderTerms} {day : Int}
    (known : terms = ⟨row.side, row.signalDate, row.orderType, row.sessionDate, row.receivedAt,
      row.contingentOn⟩) : due row day = true ↔ terms.session = day := by
  subst known
  unfold due OrderTerms.session
  split <;> exact decide_eq_true_iff

theorem settleOrder_stopped {world : World zone} {session : Session}
    {row : PendingRow} {result : FillResult} {outcome : Account × Settled} {order : Order}
    (stopped : ∃ state reason, preflight world session account row = .stop state reason)
    (found : account.orders.lookup row.orderId = some order)
    (settled : settleOrder world session account row result = .ok outcome) :
    EndedOrder row.orderId outcome.1.orders := by
  obtain ⟨state, reason, stops⟩ := stopped
  have closes := preflight_stop stops
  unfold settleOrder at settled
  rw [stops] at settled
  cases settled
  refine ⟨order.withState state reason world.now, ?_, ?_⟩
  · simp [Account.setState, lookup_rewriteOrder, found]
  · rcases closes with rfl | rfl <;> simp [Order.withState, settledStatus]

section OneSession

variable {world : World zone} {settings : AccountSettings} {begun final : Account} {day : Int}
  {sequence : List Event}
  (ran : (sessionItems world begun day sequence).foldlM
    (applyItem world (openSession world settings begun day)) begun = .ok final)

include ran

/-- A fill that a session records was recorded in the turn of its order. -/
theorem session_recording {id : OrderId} {fill : FillRow}
    (before : begun.ledger.fills.lookup id = none) (after : final.ledger.fills.lookup id = some fill) :
    ∃ state row result, (state, Item.execute row result) ∈
        sessionVisits world settings begun day sequence ∧ row.orderId = id ∧
      ∃ ts, fill.fillTs = some ts ∧ result.fillTs = some ts ∧ dateOf ts = day := by
  obtain ⟨visit, visited, next, applied, absent, present⟩ :
      ∃ visit ∈ sessionVisits world settings begun day sequence, ∃ next,
        applyItem world (openSession world settings begun day) visit.1 visit.2 = .ok next ∧
        visit.1.ledger.fills.lookup id ≠ some fill ∧ next.ledger.fills.lookup id = some fill := by
    by_contra never
    push Not at never
    refine foldlM_visited (fun state => state.ledger.fills.lookup id ≠ some fill) ?_ ?_ ran after
    · intro visit visited next absent applied
      exact never visit visited next applied absent
    · rw [before]
      nofun
  obtain ⟨state, item⟩ := visit
  cases executes : item.order with
  | none =>
    rw [(applyItem_booksOnly executes applied).fills] at present
    exact absurd present absent
  | some executed =>
    cases item with
    | execute row result =>
      obtain ⟨outcome, settled, rfl⟩ := map_ok.mp applied
      obtain ⟨_, _, _, _, _, _, _, attempted⟩ := executing_order visited
      obtain same | ⟨-, -, written, inserted, ⟨-, ⟨terms, rfl, own, dated⟩, -, -⟩⟩ :=
        settleOrder_recorded attempted settled
      · rw [same] at present
        exact absurd present absent
      · rw [inserted] at present
        by_cases same : id = row.orderId
        · subst same
          rw [AList.lookup_insert, Option.some.injEq] at present
          subst present
          exact ⟨state, row, _, visited, rfl, terms.fillTs, own, rfl, dated⟩
        · rw [AList.lookup_insert_ne same] at present
          exact absurd present absent
    | _ => cases executes

/-- A fill that is missing in one order's turn and recorded later is not of an earlier entry. -/
theorem session_later {state other : Account} {row otherRow : PendingRow}
    {result otherResult : FillResult} {fill : FillRow}
    (visited : (state, Item.execute row result) ∈ sessionVisits world settings begun day sequence)
    (otherVisited : (other, Item.execute otherRow otherResult) ∈
      sessionVisits world settings begun day sequence)
    (missing : state.ledger.fills.lookup otherRow.orderId = none)
    (recorded : final.ledger.fills.lookup otherRow.orderId = some fill)
    (different : otherRow.orderId ≠ row.orderId) :
    (Item.execute row result).key zone day ≤ (Item.execute otherRow otherResult).key zone day := by
  by_contra earlier
  have stays : ∀ (state : Account) (item : Item) (next : Account),
      item.order ≠ some otherRow.orderId → state.ledger.fills.lookup otherRow.orderId = none →
      applyItem world (openSession world settings begun day) state item = .ok next →
      next.ledger.fills.lookup otherRow.orderId = none := by
    intro state item next elsewhere absent applied
    cases executes : item.order with
    | none => rw [(applyItem_booksOnly executes applied).fills, absent]
    | some executed =>
      cases item with
      | execute row result =>
        obtain ⟨outcome, settled, rfl⟩ := map_ok.mp applied
        have apart : otherRow.orderId ≠ row.orderId := fun same =>
          elsewhere (by simp [Item.order, same])
        obtain ⟨-, same⟩ | ⟨_, _, _, _, _, _, _, inserted, _⟩ := settleOrder_books settled
        · rw [same, absent]
        · rw [inserted, AList.lookup_insert_ne apart, absent]
      | _ => cases executes
  obtain ⟨next, applied, carries⟩ := visitedM_onward
    (fun state => state.ledger.fills.lookup otherRow.orderId = none)
    (sessionItems_ordered world begun day sequence) ran (state, Item.execute row result) visited
    (by
      intro later laterVisited behind next absent applied
      refine stays later.1 later.2 next ?_ absent applied
      -- The entry that executes the other order stands before.
      intro executes
      obtain ⟨laterState, item⟩ := later
      cases item with
      | execute laterRow laterResult =>
        obtain ⟨pending, waits, _, prepare, attempted⟩ :=
          execute_mem_sessionItems (visitedM_mem _ laterVisited)
        obtain ⟨otherPending, otherWaits, _, otherPrepare, otherAttempted⟩ :=
          execute_mem_sessionItems (visitedM_mem _ otherVisited)
        have number : laterRow.orderId = otherRow.orderId := Option.some.inj executes
        have same : pending = otherPending := by
          refine pendingRows_unique waits otherWaits ?_
          rw [prepare, otherPrepare] at number
          exact number
        rw [same, ← otherPrepare] at prepare
        rw [prepare, ← otherAttempted] at attempted
        subst prepare attempted
        exact earlier behind
      | _ => cases executes)
  have final_missing := carries (stays state _ next (by
    intro same
    exact different (Option.some.inj same).symm) missing applied)
  rw [final_missing] at recorded
  cases recorded

end OneSession

/-- An order that outlives a session in which its parent filled has later times left. -/
theorem foldSession_childrenWait {world : World zone} {settings : AccountSettings}
    {next : Account} {day : Int}
    (lineage : Lineage zone account.ledger.fills account.orders)
    (folded : foldSession world settings account day = .ok next) :
    ChildrenWait zone next.ledger.fills next.orders := by
  intro id order present queued terms known parent fill ts contingent recorded stamped
  obtain ⟨row, read⟩ := queued.row id
  have number := pendingRow_orderId read
  obtain ⟨old, waited, resumes⟩ := (foldSession_undisturbed folded).waits row
    (mem_pendingRows.mpr ⟨order, by rw [number, present], by rw [number, read]⟩)
  have oldNumber : old.orderId = id := by
    rw [← number]
    rcases resumes with rfl | rfl <;> rfl
  obtain ⟨before, found, readBefore⟩ := mem_pendingRows.mp waited
  rw [oldNumber] at found readBefore
  have oldTerms : terms = ⟨old.side, old.signalDate, old.orderType, old.sessionDate, old.receivedAt,
      old.contingentOn⟩ := by
    rw [pendingRow_terms read, Option.some.injEq] at known
    rw [← known]
    rcases resumes with rfl | rfl <;> rfl
  have knownBefore : before.terms = some terms := by
    rw [pendingRow_terms readBefore, oldTerms]
  obtain ⟨sequence, _, _, ran⟩ := foldSession_ok folded
  cases earlier : account.ledger.fills.lookup parent with
  | some first =>
    -- The parent was recorded before, and so the bound stood before.
    have kept : next.ledger.fills.lookup parent = some first :=
      foldlM_visited (fun state => state.ledger.fills.lookup parent = some first)
        (fun _ _ _ stands applied => applyItem_keeps stands applied) earlier ran
    rw [kept, Option.some.injEq] at recorded
    subst recorded
    exact lineage.waits id before found (pendingRow_queued readBefore) terms knownBefore parent first
      ts contingent earlier stamped
  | none =>
    obtain ⟨parentState, parentRow, parentResult, parentVisited, parentNumber, time, stampedThen, attempt,
      dated⟩ := session_recording ran earlier recorded
    rw [stamped, Option.some.injEq] at stampedThen
    subst stampedThen
    obtain ⟨-, numbered, first, firstTerms, precedes⟩ := lineage.parented id terms parent
      (by rw [termsOf, found]; exact knownBefore) contingent
    -- The parent's session is the one that is folded.
    have session : first.session = day := by
      obtain ⟨pending, parentOrder, _, listed, readParent, isDue, _, _⟩ :=
        executing_order parentVisited
      rw [parentNumber] at listed
      rw [termsOf, listed] at firstTerms
      have own := pendingRow_terms readParent
      rw [show parentOrder.terms = some first from firstTerms, Option.some.injEq] at own
      exact (due_session own).mp isDue
    by_cases sameDay : terms.session = day
    · have isDue : due old day = true := (due_session oldTerms).mpr sameDay
      obtain ⟨state, visited⟩ := visitedM_covers ran _ (mem_sessionItems_execute waited isDue)
      have child : (prepareOrder world old day).orderId = id := oldNumber
      have waitsFor : (prepareOrder world old day).contingentOn = some parent := by
        rw [oldTerms] at contingent
        exact contingent
      obtain ⟨after, applied, carries⟩ := visitedM_lasts (fun state => EndedOrder id state.orders)
        (by
          intro visit inside later ended done
          cases executes : visit.2.order with
          | none => rwa [(applyItem_booksOnly executes done).orders]
          | some executed =>
            by_cases own : executed = id
            · -- An order that ended is no entry of the session any more.
              subst own
              obtain ⟨order, there, closed⟩ := ended
              obtain ⟨visitState, item⟩ := visit
              cases item with
              | execute laterRow laterResult =>
                obtain ⟨pending, other, stands, _, readLater, _⟩ := executing_order inside
                have same : laterRow.orderId = executed := Option.some.inj executes
                rw [same] at stands
                rw [there] at stands
                cases stands
                exact absurd (pendingRow_queued readLater).1 closed
              | _ => cases executes
            · obtain ⟨order, there, closed⟩ := ended
              refine ⟨order, ?_, closed⟩
              rw [applyItem_otherOrders (by rw [executes]; exact fun same => own (Option.some.inj same))
                done, there])
        ran _ visited
      have open' : ¬ EndedOrder id after.orders := by
        intro ended
        obtain ⟨final, there, closed⟩ := carries ended
        rw [present] at there
        cases there
        exact closed queued.1
      obtain ⟨outcome, settled, rfl⟩ := map_ok.mp applied
      obtain ⟨_, waitingOrder, stands, _⟩ := executing_order visited
      -- Its turn found the parent recorded: otherwise it would have been closed.
      have recordedThen : state.ledger.fills.lookup parent ≠ none := by
        intro missing
        refine open' ?_
        rw [← child]
        refine settleOrder_stopped (preflight_unrecorded waitsFor missing ?_) stands settled
        have behind := session_later ran visited parentVisited (by rw [parentNumber]; exact missing)
          (by rw [parentNumber]; exact recorded) (by rw [parentNumber, child]; exact numbered.ne)
        have listed : ∀ {visitState : Account} {visitRow : PendingRow} {visitResult : FillResult},
            (visitState, Item.execute visitRow visitResult) ∈
              sessionVisits world settings account day sequence →
            (visitRow, visitResult) ∈ localPrepared world account day := by
          intro visitState visitRow visitResult inside
          obtain ⟨pending, waits, dueThen, prepare, attempted⟩ :=
            execute_mem_sessionItems (visitedM_mem _ inside)
          refine List.mem_map.mpr ⟨pending, List.mem_filter.mpr ⟨waits, dueThen⟩, ?_⟩
          rw [attempted, prepare]
        have ownKey := session_key settings (listed visited)
        have parentKey := session_key settings (listed parentVisited)
        rw [parentNumber] at parentKey
        unfold Session.parentLater
        rw [waitsFor, Option.bind_some, parentKey, ownKey]
        refine decide_eq_true ?_
        -- Equal times would let the smaller number, the parent's, go first.
        have times := Prod.Lex.le_iff.mp behind
        rw [Prod.Lex.lt_iff]
        left
        rcases times with less | ⟨same, rest⟩
        · exact less
        · exfalso
          have tie := Prod.Lex.le_iff.mp rest
          simp only [Item.key, ofLex_toLex, lt_irrefl, false_or, true_and] at tie
          have ids := Prod.Lex.le_iff.mp tie
          simp only [ofLex_toLex, lt_irrefl, false_or, true_and] at ids
          have numbers := Prod.Lex.le_iff.mp ids
          simp only [ofLex_toLex, lt_irrefl, false_or, true_and] at numbers
          rw [child, parentNumber] at numbers
          exact absurd numbered (not_lt.mpr numbers)
      obtain ⟨there, stands'⟩ := Option.ne_none_iff_exists'.mp recordedThen
      have same : there = fill := by
        obtain ⟨_, applied', lasts⟩ := visitedM_lasts
          (fun state => state.ledger.fills.lookup parent = some there)
          (fun _ _ _ stands applied => applyItem_keeps stands applied) ran _ visited
        have final := lasts (applyItem_keeps stands' applied')
        rw [recorded, Option.some.injEq] at final
        exact final.symm
      subst same
      -- So it was only unpriced, and stands at its earliest time.
      have unpriced : fillAttempt world account (prepareOrder world old day) day = .pending := by
        by_contra decided
        refine open' ?_
        rw [← child]
        refine settleOrder_ends settled ?_ decided stands
        rw [waitsFor]
        simp [contingentQuantity, stands']
      rcases visit_recorded visited parent there stands' with already | ⟨time, own, within⟩
      · rw [earlier] at already
        cases already
      · rw [stamped, Option.some.injEq] at own
        subst own
        rw [unpriced] at within
        rwa [pending_key oldTerms isDue world] at within
    · have later : day < terms.session := by
        have atMost := precedes.session
        rw [session] at atMost
        exact lt_of_le_of_ne atMost (Ne.symm sameDay)
      have nextOpen : terms.orderType = .nextOpen := by
        refine precedes.sameDay.resolve_left ?_
        rw [session]
        exact Ne.symm sameDay
      have opens : terms.earliest zone = opened zone terms.session := by
        simp [OrderTerms.earliest, OrderTerms.session, nextOpen]
      rw [opens]
      by_contra after
      have ordered : dateOf (opened zone terms.session) ≤ dateOf ts :=
        Int.ediv_le_ediv (by decide) (not_le.mp after).le
      rw [dateOf_opened, dated] at ordered
      exact absurd ordered (not_le.mpr later)

theorem Follows.insert {fills : Table OrderId FillRow} {fill other : FillRow}
    (follows : Follows fills fill parent) (unfilled : fills.lookup id = none) :
    Follows (fills.insert id other) fill parent := by
  obtain ⟨first, found, within⟩ := follows
  refine ⟨first, ?_, within⟩
  rw [AList.lookup_insert_ne, found]
  rintro rfl
  rw [unfilled] at found
  cases found

/-- A turn of a session keeps fills behind the fills of their parents. -/
theorem visit_childrenFollow {world : World zone} {settings : AccountSettings} {begun : Account}
    {day : Int} {sequence : List Event} {next : Account}
    (lineage : Lineage zone begun.ledger.fills begun.orders)
    (visited : visit ∈ sessionVisits world settings begun day sequence)
    (follow : ChildrenFollow visit.1.ledger.fills visit.1.orders)
    (applied : applyItem world (openSession world settings begun day) visit.1 visit.2 = .ok next) :
    ChildrenFollow next.ledger.fills next.orders := by
  obtain ⟨state, item⟩ := visit
  let turn : Turn := ⟨openSession world settings begun day, begun, state, item⟩
  have entered : (turn.account, turn.item) ∈ sessionVisits world settings turn.begun day sequence :=
    visited
  have written := visit_orders (childrenFollow_lawful state.ledger.fills) entered follow (by simp)
    applied
  cases executes : item.order with
  | none =>
    rw [(applyItem_booksOnly executes applied).fills]
    exact written
  | some id =>
    cases item with
    | execute row result =>
      obtain ⟨outcome, settled, rfl⟩ := map_ok.mp applied
      obtain ⟨pending, order, found, listed, stored, isDue, prepared, attempted⟩ :=
        executing_order visited
      obtain same | ⟨unfilled, orders, fill, inserted, recorded⟩ :=
        settleOrder_recorded attempted settled
      · rw [same]
        exact written
      · intro other known present
        by_cases own : other = row.orderId
        · subst own
          rw [inserted, AList.lookup_insert, Option.some.injEq] at present
          subst present
          obtain ⟨priced, rfl, own, -⟩ := recorded.priced
          refine ⟨order.withState .filled row.stateReason world.now, ?_, ⟨rfl, by simp [own]⟩, ?_⟩
          · rw [orders, lookup_rewriteOrder, found]
            simp
          · intro terms parent named contingent
            rw [withState_terms] at named
            have agreed : terms = ⟨row.side, row.signalDate, row.orderType, row.sessionDate,
                row.receivedAt, row.contingentOn⟩ := by
              rw [pendingRow_terms stored, Option.some.injEq] at named
              rw [← named, prepared]
              rfl
            have waits : row.contingentOn = some parent := by
              rw [agreed] at contingent
              exact contingent
            obtain ⟨first, parentFound, within⟩ := recorded.parents parent waits
            have before : ∃ earlier, first.fillTs = some earlier ∧ earlier ≤ priced.fillTs := by
              rcases visit_recorded visited parent first parentFound with already | ⟨earlier, stamped, past⟩
              · -- A parent recorded before the session bounds the times that the order has left.
                obtain ⟨_, _, ⟨_, timed⟩, _⟩ := lineage.follow parent first already
                obtain ⟨earlier, stamped⟩ := Option.isSome_iff_exists.mp timed
                refine ⟨earlier, stamped, ?_⟩
                have waited := lineage.waits _ order listed (pendingRow_queued stored) terms named parent
                  first earlier contingent already stamped
                have rowDue : due row day = true := by
                  rw [prepared]
                  exact isDue
                exact waited.trans (fillAttempt_earliest agreed rowDue attempted.symm)
              · refine ⟨earlier, stamped, ?_⟩
                rwa [execute_key zone day row rfl] at past
            obtain ⟨earlier, stamped, ordered⟩ := before
            rw [inserted]
            exact Follows.insert ⟨first, parentFound, ⟨earlier, _, stamped, own, ordered⟩, within⟩
              unfilled
        · rw [inserted, AList.lookup_insert_ne own] at present
          obtain ⟨old, stands, filled, follows⟩ := follow other known present
          refine ⟨old, ?_, filled, fun terms parent named contingent => ?_⟩
          · rw [orders, lookup_rewriteOrder, stands]
            simp [own]
          · rw [inserted]
            exact (follows terms parent named contingent).insert unfilled
    | _ => cases executes

/-- A session keeps orders and fills in their relation. -/
theorem foldSession_lineage {world : World zone} {settings : AccountSettings}
    {next : Account} {day : Int}
    (lineage : Lineage zone account.ledger.fills account.orders)
    (folded : foldSession world settings account day = .ok next) :
    Lineage zone next.ledger.fills next.orders := by
  obtain ⟨sequence, _, _, ran⟩ := foldSession_ok folded
  have lawfully : ∀ {law}, OrderLaw false false law → law account.orders → law next.orders := by
    intro law lawful holds
    refine foldlM_visited (fun state => law state.orders) ?_ holds ran
    intro visit visited after holds applied
    let turn : Turn := ⟨openSession world settings account day, account, visit.1, visit.2⟩
    have entered : (turn.account, turn.item) ∈
        sessionVisits world settings turn.begun day sequence := visited
    exact visit_orders lawful entered holds (by simp) applied
  constructor
  · exact lawfully (dated_lawful false) lineage.dated
  · exact lawfully parented_lawful lineage.parented
  · exact foldSession_childrenWait lineage folded
  · refine foldlM_visited (fun state => ChildrenFollow state.ledger.fills state.orders) ?_
      lineage.follow ran
    intro visit visited after follow applied
    exact visit_childrenFollow lineage visited follow applied

/-- Writes outside a session keep orders and fills in their relation. -/
theorem lineage_lawful (zone : Zone) (fills : Table OrderId FillRow) :
    OrderLaw false false (Lineage zone fills) where
  rewritten orders change lineage writes :=
    ⟨(dated_lawful false).rewritten orders change lineage.dated writes,
      parented_lawful.rewritten orders change lineage.parented writes,
      (childrenWait_lawful zone fills).rewritten orders change lineage.waits writes,
      (childrenFollow_lawful fills).rewritten orders change lineage.follow writes⟩
  inserted orders id order lineage missing new := by
    have entered : NewOrder true order := by
      cases new with
      | forced ticker side qty orderType unlimited sessionDate receivedAt reason closing forces
          auction received =>
        exact .forced _ _ _ _ unlimited _ _ _ closing forces auction received
      | entered intent parent now limited session accepting => cases accepting
    exact ⟨(dated_lawful false).inserted orders id order lineage.dated missing new,
      parented_lawful.inserted orders id order lineage.parented missing new,
      (childrenWait_lawful zone fills).inserted orders id order lineage.waits missing new,
      (childrenFollow_lawful fills).inserted orders id order lineage.follow missing entered⟩

/-- Every call keeps orders and fills in their relation. -/
theorem step_lineage (operation : Operation zone)
    (lineage : Lineage zone account.ledger.fills account.orders) :
    Lineage zone (step account operation).ledger.fills (step account operation).orders := by
  rcases step_folds account operation with same | ⟨world, stop, mutation, folded, call, done, books,
    orders⟩
  · have ledger : (step account operation).ledger = account.ledger := congrArg Prod.snd same
    by_cases submits : ∃ world intent, operation = .submit world intent
    · obtain ⟨world, intent, rfl⟩ := submits
      exact submit_lineage lineage
    · rw [ledger]
      exact step_orders (lineage_lawful zone account.ledger.fills) lineage
        (fun world intent same => absurd ⟨world, intent, same⟩ submits) (by simp) (by simp)
  · obtain ⟨_, _, done⟩ := bind_ok.mp done
    obtain ⟨changed, mutated, done⟩ := bind_ok.mp done
    obtain ⟨looped, loop, finished⟩ := bind_ok.mp done
    obtain ⟨_, tables, _, kept⟩ := call.mutates mutated
    have fills : changed.ledger.fills = account.ledger.fills := by rw [tables]
    have after : Lineage zone looped.ledger.fills looped.orders := by
      refine foldLoop_sessions (fun state => Lineage zone state.ledger.fills state.orders) ?_ ?_ ?_ loop
      · intro opened plan opening
        obtain ⟨_, _, _, _, rfl, _⟩ := openFold_ok opening
        change Lineage zone changed.ledger.fills changed.orders
        rw [fills]
        exact kept _ _ _ (lineage_lawful zone account.ledger.fills) lineage
      · intro state day next before session
        exact foldSession_lineage before session
      · intro state day next before marked
        obtain ⟨row, prices, rfl⟩ := markAccount_ok marked
        exact before
    have ledger : (step account operation).ledger = looped.ledger :=
      (congrArg Prod.snd books).trans (congrArg Prod.snd (finishFold_supervised finished).books)
    rw [ledger]
    refine orders _ _ (lineage_lawful zone looped.ledger.fills) ?_
    exact finishFold_orders (lineage_lawful zone looped.ledger.fills) after finished

/-- A contingent order that a call fills takes at most what is held in its turn. -/
theorem step_child_held (parented : Parented account.orders)
    {operation : Operation zone} {terms : OrderTerms} {fill : FillRow}
    (stored : termsOf account.orders id = some terms) (contingent : terms.parent = some parent)
    (before : account.ledger.fills.lookup id = none)
    (after : (step account operation).ledger.fills.lookup id = some fill) :
    ∃ world turns, foldedTurns account operation = some (world, turns) ∧
      ∃ turn ∈ turns, ∃ row result, turn.item = .execute row result ∧ row.orderId = id ∧
        fill.qty ≤ |(turn.account.book.position fill.ticker).qty| := by
  rcases step_folds account operation with same | ⟨world, stop, mutation, folded, call, done, books,
    orders⟩
  · have ledger : (step account operation).ledger = account.ledger := congrArg Prod.snd same
    rw [ledger, before] at after
    cases after
  · obtain ⟨_, _, done⟩ := bind_ok.mp done
    obtain ⟨changed, mutated, done⟩ := bind_ok.mp done
    obtain ⟨looped, loop, finished⟩ := bind_ok.mp done
    obtain ⟨_, tables, _, kept⟩ := call.mutates mutated
    have ledger : (step account operation).ledger = looped.ledger :=
      (congrArg Prod.snd books).trans (congrArg Prod.snd (finishFold_supervised finished).books)
    rw [ledger] at after
    obtain ⟨turn, member, next, applied, absent, recorded⟩ := foldLoop_change
      (fun state => state.ledger.fills.lookup id = some fill)
      (by
        intro opened plan opening already
        obtain ⟨_, _, _, _, rfl, _⟩ := openFold_ok opening
        change changed.ledger.fills.lookup id = some fill at already
        rw [tables, before] at already
        cases already)
      (by
        intro state day next absent marked
        obtain ⟨row, prices, rfl⟩ := markAccount_ok marked
        exact absent)
      loop after
    have inside : turn ∈ mutatedTurns world account stop mutation := by
      unfold mutatedTurns
      rw [mutated]
      exact member
    have listed : termsOf turn.account.orders id = some terms := by
      have lawful : OrderLaw false true fun orders : Table OrderId Order =>
          ∃ order, orders.lookup id = some order ∧ order.terms = some terms :=
        .oneRow id fun _ _ write known => write.terms.trans known
      obtain ⟨order, found, known⟩ := (foldTurns_orders lawful rfl
        (kept _ _ _ lawful (Option.bind_eq_some_iff.mp stored)) turn member).2
      rw [termsOf, found]
      exact known
    refine ⟨world, _, call.turns, turn, inside, ?_⟩
    obtain ⟨day, sequence, _, _, session, visited⟩ := mem_foldTurns member
    cases executes : turn.item.order with
    | none =>
      rw [(applyItem_booksOnly executes applied).fills] at recorded
      exact absurd recorded absent
    | some executed =>
      cases item : turn.item with
      | execute row result =>
        rw [item] at applied visited
        obtain ⟨outcome, settled, rfl⟩ := map_ok.mp applied
        obtain ⟨pending, known, found, _, read, _, prepared, attempted⟩ := executing_order visited
        have attemptedThen : result = fillAttempt world turn.begun row turn.session.day := by
          rw [session]
          exact attempted
        obtain same | ⟨_, _, inserted, written, record⟩ := settleOrder_recorded attemptedThen settled
        · rw [same] at recorded
          exact absurd recorded absent
        · have own : id = row.orderId := by
            by_contra different
            rw [written, AList.lookup_insert_ne different] at recorded
            exact absent recorded
          subst own
          rw [written, AList.lookup_insert, Option.some.injEq] at recorded
          subst recorded
          refine ⟨row, result, rfl, rfl, record.held ?_⟩
          have side : row.side = terms.side := by
            rw [termsOf, found, Option.bind_some, pendingRow_terms read, Option.some.injEq] at listed
            rw [← listed, prepared]
            rfl
          rw [record.sides, side]
          exact (parented _ terms parent stored contingent).1
      | _ =>
        rw [item] at executes
        cases executes

/-- A contingent order fills after its parent and only if the parent filled, for at most
what the parent filled and at most what is held at that moment. -/
theorem contingent_orders_follow {spec : Spec} {capital : ℚ} {source : PriceSource}
    {rule : DayTradeRule} {allowShort : Bool} {now : Int} {account : Account}
    (created : createAccount zone spec capital source rule allowShort now = .ok account)
    (operations : List (Operation zone)) :
    ∀ reached ∈ states step account operations, ∀ id order details parent,
      reached.orders.lookup id = some order → order.details = some details →
      details.contingentOn = some parent →
        (∀ fill, reached.ledger.fills.lookup id = some fill →
          Follows reached.ledger.fills fill parent) ∧
        ∀ (operation : Operation zone) fill, reached.ledger.fills.lookup id = none →
          (step reached operation).ledger.fills.lookup id = some fill →
          ∃ world turns, foldedTurns reached operation = some (world, turns) ∧
            ∃ turn ∈ turns, ∃ row result, turn.item = .execute row result ∧ row.orderId = id ∧
              fill.qty ≤ |(turn.account.book.position fill.ticker).qty| := by
  have initially : Lineage zone account.ledger.fills account.orders := by
    rw [createAccount_ok created]
    constructor
    · intro id order found
      simp [newAccount] at found
    · intro id terms parent found
      simp [newAccount, termsOf] at found
    · intro id order found
      simp [newAccount] at found
    · intro id fill found
      simp [newAccount] at found
  have kept : ∀ reached ∈ states step account operations,
      Lineage zone reached.ledger.fills reached.orders :=
    states_invariant (fun state : Account => Lineage zone state.ledger.fills state.orders)
      (fun _ operation lineage => step_lineage operation lineage) initially operations
  intro reached member id order details parent present stored contingent
  have lineage := kept reached member
  have terms : order.terms = some ⟨order.side, order.signalDate, details.orderType,
      details.sessionDate, details.receivedAt, some parent⟩ := by
    rw [← contingent, Order.terms, stored]
    rfl
  constructor
  · intro fill recorded
    obtain ⟨known, found, _, follows⟩ := lineage.follow id fill recorded
    rw [present] at found
    cases found
    exact follows _ parent terms rfl
  · intro operation fill before after
    exact step_child_held lineage.parented (by rw [termsOf, present]; exact terms) rfl before after

/-- A steady world that shows some minutes of a session, each with its hour and its high. -/
def tapeWorld (day hours : Int) (tape : List (Int × {high : ℚ // 0 < high})) :
    World daylightTime :=
  { sampleWorld day hours with
    market :=
      { (steadyMarket 10 ten_positive : Market daylightTime) with
        minuteBars := fun _ _ day _ =>
          (tape.map fun row => (⟨day * dayLength + row.1 * hour, 10, row.2, 10, 10, none,
            ten_positive, row.2.2, ten_positive, ten_positive⟩ : MinuteBar)).filter fun bar =>
              decide (opened daylightTime day ≤ bar.ts) && decide (bar.ts < closed daylightTime day)
        minutes_within := by
          intro _ _ day _ bar listed
          simpa using (List.mem_filter.mp listed).2 } }

/-- A market buy and a sell above a limit that waits for it, both queued in one session. -/
def cappedEntry : List (Operation daylightTime) :=
  [.submit (sampleWorld 739770 14) ⟨"entry", "SYM", true, .market, .buy, 10, none, 739770, none⟩,
    .submit (sampleWorld 739770 15)
      ⟨"exit", "SYM", true, .limit, .sell, 10, some 11, 739770, some "entry"⟩]

/-- The session shows a minute for the buy and a later one above the limit. -/
def cappedSession : Operation daylightTime :=
  .settle (tapeWorld 739770 22 [(18, ⟨10, ten_positive⟩), (19, ⟨12, by norm_num⟩)]) 739770

theorem cappedSession_follows :
    ∃ fill, (step (cappedEntry.foldl step sampleAccount) cappedSession).ledger.fills.lookup 2 = some fill ∧
      Follows (step (cappedEntry.foldl step sampleAccount) cappedSession).ledger.fills fill 1 ∧
      ∃ world turns, foldedTurns (cappedEntry.foldl step sampleAccount) cappedSession =
          some (world, turns) ∧
        ∃ turn ∈ turns, ∃ row result, turn.item = .execute row result ∧ row.orderId = 2 ∧
          fill.qty ≤ |(turn.account.book.position fill.ticker).qty| := by
  have waits : ((cappedEntry.foldl step sampleAccount).orders.lookup 2).bind
      (fun order => order.details.bind OrderDetails.contingentOn) = some 1 := by
    decide +kernel
  have waited : ((step (cappedEntry.foldl step sampleAccount) cappedSession).orders.lookup 2).bind
      (fun order => order.details.bind OrderDetails.contingentOn) = some 1 := by
    decide +kernel
  have filled : ((step (cappedEntry.foldl step sampleAccount) cappedSession).ledger.fills.lookup
      2).isSome := by
    decide +kernel
  obtain ⟨order, present, contingent⟩ := Option.bind_eq_some_iff.mp waits
  obtain ⟨details, stored, parent⟩ := Option.bind_eq_some_iff.mp contingent
  obtain ⟨last, presentLast, contingentLast⟩ := Option.bind_eq_some_iff.mp waited
  obtain ⟨detailsLast, storedLast, parentLast⟩ := Option.bind_eq_some_iff.mp contingentLast
  obtain ⟨fill, recorded⟩ := Option.isSome_iff_exists.mp filled
  have follows := contingent_orders_follow sampleAccount_created (cappedEntry ++ [cappedSession])
  refine ⟨fill, recorded, ?_, ?_⟩
  · exact (follows _ (by simp [cappedEntry, states]) 2 last detailsLast 1 presentLast storedLast
      parentLast).1 fill recorded
  · exact (follows _ (by simp [cappedEntry, states]) 2 order details 1 present stored parent).2
      cappedSession fill (by decide +kernel) recorded

end TradingEngine.Accounts
