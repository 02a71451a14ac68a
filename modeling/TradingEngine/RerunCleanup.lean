import TradingEngine.Ledger
import TradingEngine.Runs

/-!
# What a rerun takes back from the shared order table

The league's day-step, manual tickets, the comparator and construction books and
the simulator's broker adapter all write orders into one table. A rerun of a date
deletes the date's orders, except those that a listed table refers to, and makes
filled orders pending again when their fill was deleted. Each writer but the
day-step keeps a reference to its order under a key of its own; the adapter's
table of keys is not on the list.

Who created an order is not stored by the source; `origins` keeps it here.
-/

namespace TradingEngine.League

open KeyedTables OrderTypes Ledger Runs

/-- Who created an order. -/
inductive Origin where
  | dayStep (date : Int)
  | ticket | p15 | p16 | adapter
  deriving DecidableEq

/-- Tables that map a key of their own to an order. -/
inductive KeyTable where
  | discTickets | dailyOpportunityOrderAttribution | agentPaperOrderAttribution
  | paperAccountIntakes | p15OrderIntents | p16OrderIntents | simOrderDetails
  | simulatorBrokerOrderKeys
  deriving DecidableEq

/-- The tables whose orders a rerun does not delete. -/
def protectedTables : List KeyTable :=
  [.discTickets, .dailyOpportunityOrderAttribution, .agentPaperOrderAttribution,
    .paperAccountIntakes, .p15OrderIntents, .p16OrderIntents, .simOrderDetails]

/-- The table in which a writer refers to its orders. -/
def Origin.table : Origin → Option KeyTable
  | .dayStep _ => none
  | .ticket => some .discTickets
  | .p15 => some .p15OrderIntents
  | .p16 => some .p16OrderIntents
  | .adapter => some .simulatorBrokerOrderKeys

inductive OrderStatus where
  | pending | filled | rejected | cancelled | p15Filled | p16Filled
  deriving DecidableEq

/-- A row of the shared order table. -/
structure OrderRow where
  portfolioId : String
  ticker : Ticker
  side : Side
  qty : ℚ
  signalDate : Int
  status : OrderStatus
  rejectReason : Option String
  deriving DecidableEq

/-- The columns of a fill that a rerun reads. -/
structure FillMark where
  portfolioId : String
  fillDate : Int

/-- A row that maps a key to an order, once there is one. -/
structure Reference where
  table : KeyTable
  key : String
  orderId : Option OrderId
  deriving DecidableEq

/-- The shared tables. Order identifiers come from a sequence and are never reused. -/
structure OrderTables where
  engine : String → Engine
  orders : Table OrderId OrderRow
  fills : Table OrderId FillMark
  references : List Reference
  nextOrder : OrderId
  origins : Table OrderId Origin

/-- Portfolios that a rerun cleans up: every one outside the account engine. -/
def OrderTables.legacy (tables : OrderTables) (portfolioId : String) : Bool :=
  decide (tables.engine portfolioId ≠ .account)

/-- An order that a listed table refers to. -/
def OrderTables.isProtected (tables : OrderTables) (orderId : OrderId) : Bool :=
  tables.references.any fun reference =>
    protectedTables.contains reference.table && decide (reference.orderId = some orderId)

/-- Fills that survive a rerun of a date. -/
def survivingFills (tables : OrderTables) (day : Int) : Table OrderId FillMark :=
  filterRows (fun _ fill =>
    !(decide (fill.fillDate = day) && tables.legacy fill.portfolioId)) tables.fills

/-- Orders that survive a rerun of a date. -/
def survivingOrders (tables : OrderTables) (day : Int) : Table OrderId OrderRow :=
  filterRows (fun orderId order =>
    !(decide (order.signalDate = day) && tables.legacy order.portfolioId &&
      !tables.isProtected orderId)) tables.orders

/-- A filled order whose fill is gone is pending again. -/
def requeue (tables : OrderTables) (fills : Table OrderId FillMark) (orderId : OrderId)
    (order : OrderRow) : OrderRow :=
  if order.status = .filled ∧ tables.legacy order.portfolioId ∧ fills.lookup orderId = none then
    { order with status := .pending, rejectReason := none }
  else order

/-- Delete a date's rows. The rebuild of cash and positions touches no order. -/
def rerunCleanup (tables : OrderTables) (day : Int) : OrderTables :=
  let fills := survivingFills tables day
  { tables with
    fills := fills
    orders := mapRows (requeue tables fills) (survivingOrders tables day) }

/-- Insert an order under the next identifier, with its writer's reference. -/
def createOrder (tables : OrderTables) (origin : Origin) (key : String) (order : OrderRow)
    (filledOn : Option Int) : OrderTables :=
  let orderId := tables.nextOrder
  { tables with
    orders := tables.orders.insert orderId order
    fills := filledOn.elim tables.fills fun day =>
      tables.fills.insert orderId ⟨order.portfolioId, day⟩
    references := origin.table.elim tables.references fun table =>
      tables.references ++ [⟨table, key, some orderId⟩]
    nextOrder := orderId + 1
    origins := tables.origins.insert orderId origin }

/-- What an order asks for. -/
structure OrderTerms where
  portfolioId : String
  ticker : Ticker
  side : Side
  qty : ℚ
  signalDate : Int

def OrderTerms.row (terms : OrderTerms) (status : OrderStatus) (reason : Option String) :
    OrderRow :=
  ⟨terms.portfolioId, terms.ticker, terms.side, terms.qty, terms.signalDate, status, reason⟩

/-- A generated order: its terms, dated by the step, and why it is quarantined, if it is. -/
structure Generated where
  portfolioId : String
  ticker : Ticker
  side : Side
  qty : ℚ
  quarantine : Option String

/-- Store a generated order. A quarantined one is rejected at once. -/
def generateOrder (day : Int) (tables : OrderTables) (order : Generated) : OrderTables :=
  let terms : OrderTerms := ⟨order.portfolioId, order.ticker, order.side, order.qty, day⟩
  createOrder tables (.dayStep day) ""
    (terms.row (if order.quarantine.isSome then .rejected else .pending) order.quarantine) none

/-- Submit through the broker adapter. A key that is mapped submits nothing. -/
def submitOrder (tables : OrderTables) (key : String) (terms : OrderTerms) : OrderTables :=
  if tables.references.any fun reference =>
      decide (reference.table = .simulatorBrokerOrderKeys) && decide (reference.key = key) then
    tables
  else createOrder tables .adapter key (terms.row .pending none) none

/-- Change the status of an order. -/
def setStatus (tables : OrderTables) (orderId : OrderId) (status : OrderStatus)
    (reason : Option String) : OrderTables :=
  { tables with
    orders := mapRows (fun other order =>
      if other = orderId then { order with status := status, rejectReason := reason } else order)
      tables.orders }

/-- Book the fill of an order that exists. -/
def bookFill (tables : OrderTables) (orderId : OrderId) (day : Int) : OrderTables :=
  match tables.orders.lookup orderId with
  | none => tables
  | some order =>
    { tables with fills := tables.fills.insert orderId ⟨order.portfolioId, day⟩ }

/-- What the writers of the order table do. -/
inductive Act where
  | generate (day : Int) (orders : List Generated)
  | fill (orderId : OrderId) (day : Int)
  | reject (orderId : OrderId) (reason : String)
  | cancel (orderId : OrderId) (reason : String)
  | ticket (key : String) (terms : OrderTerms)
  | p15 (key : String) (terms : OrderTerms) (filledOn : Option Int) (reason : Option String)
  | restore (orderId : OrderId) (day : Int)
  | p16 (key : String) (terms : OrderTerms) (filledOn : Option Int) (reason : Option String)
  | submit (key : String) (terms : OrderTerms)
  | rerun (day : Int)

/-- One act. A book's order is written when its attempt ended. -/
def act (tables : OrderTables) : Act → OrderTables
  | .generate day orders => orders.foldl (generateOrder day) tables
  | .fill orderId day => setStatus (bookFill tables orderId day) orderId .filled none
  | .reject orderId reason => setStatus tables orderId .rejected (some reason)
  | .cancel orderId reason => setStatus tables orderId .cancelled (some reason)
  | .ticket key terms => createOrder tables .ticket key (terms.row .pending none) none
  | .p15 key terms filledOn reason =>
    createOrder tables .p15 key
      (terms.row (if filledOn.isSome then .p15Filled else .rejected) reason) filledOn
  | .restore orderId day => bookFill tables orderId day
  | .p16 key terms filledOn reason =>
    createOrder tables .p16 key
      (terms.row (if filledOn.isSome then .p16Filled else .rejected) reason) filledOn
  | .submit key terms => submitOrder tables key terms
  | .rerun day => rerunCleanup tables day

/-- Tables before anything was written. -/
def OrderTables.initial (engine : String → Engine) : OrderTables :=
  ⟨engine, ∅, ∅, [], 1, ∅⟩

/-- What holds of the tables after any acts: identifiers are drawn in order, every order
has its writer's reference, and no listed table refers to a missing order. -/
structure Sound (tables : OrderTables) : Prop where
  drawn : ∀ orderId order, tables.orders.lookup orderId = some order → orderId < tables.nextOrder
  origin : ∀ orderId order, tables.orders.lookup orderId = some order →
    ∃ origin, tables.origins.lookup orderId = some origin ∧
      (∀ day, origin = .dayStep day → order.signalDate = day) ∧
      ∀ table ∈ origin.table, ∃ key, ⟨table, key, some orderId⟩ ∈ tables.references
  linked : ∀ reference ∈ tables.references, reference.table ∈ protectedTables →
    ∀ orderId ∈ reference.orderId, ∃ order, tables.orders.lookup orderId = some order

namespace Sound

variable {tables : OrderTables}

/-- Rewriting orders without moving their signal dates keeps the tables sound. -/
theorem rewritten (sound : Sound tables) {change : OrderId → OrderRow → OrderRow}
    (dated : ∀ orderId order, (change orderId order).signalDate = order.signalDate)
    (fills : Table OrderId FillMark) :
    Sound { tables with orders := mapRows change tables.orders, fills := fills } where
  drawn orderId order found := by
    rw [lookup_mapRows, Option.map_eq_some_iff] at found
    obtain ⟨stored, listed, _⟩ := found
    exact sound.drawn orderId stored listed
  origin orderId order found := by
    rw [lookup_mapRows, Option.map_eq_some_iff] at found
    obtain ⟨stored, listed, rfl⟩ := found
    obtain ⟨origin, known, onDay, referred⟩ := sound.origin orderId stored listed
    exact ⟨origin, known, fun day made => (dated orderId stored).trans (onDay day made), referred⟩
  linked reference listed protects orderId refers := by
    obtain ⟨stored, found⟩ := sound.linked reference listed protects orderId refers
    exact ⟨change orderId stored, by rw [lookup_mapRows, found, Option.map_some]⟩

/-- A created order has a new identifier and its writer's reference. -/
theorem created (sound : Sound tables) {origin : Origin} {key : String} {order : OrderRow}
    {filledOn : Option Int} (dated : ∀ day, origin = .dayStep day → order.signalDate = day) :
    Sound (createOrder tables origin key order filledOn) where
  drawn orderId row found := by
    by_cases new : orderId = tables.nextOrder
    · exact new ▸ Nat.lt_succ_self _
    · simp only [createOrder] at found
      rw [AList.lookup_insert_ne new] at found
      exact Nat.lt_succ_of_lt (sound.drawn orderId row found)
  origin orderId row found := by
    by_cases new : orderId = tables.nextOrder
    · subst new
      simp only [createOrder, AList.lookup_insert, Option.some.injEq] at found ⊢
      subst found
      refine ⟨origin, rfl, dated, fun table writer => ⟨key, ?_⟩⟩
      rw [Option.mem_def.mp writer]
      exact List.mem_append_right _ (List.mem_singleton_self _)
    · simp only [createOrder] at found ⊢
      rw [AList.lookup_insert_ne new] at found ⊢
      obtain ⟨known, stored, onDay, referred⟩ := sound.origin orderId row found
      refine ⟨known, stored, onDay, fun table writer => ?_⟩
      obtain ⟨other, listed⟩ := referred table writer
      refine ⟨other, ?_⟩
      cases origin.table with
      | none => exact listed
      | some _ => exact List.mem_append_left _ listed
  linked reference listed protects orderId refers := by
    by_cases new : orderId = tables.nextOrder
    · subst new
      exact ⟨order, AList.lookup_insert _⟩
    · have earlier : reference ∈ tables.references := by
        simp only [createOrder] at listed
        cases writer : origin.table with
        | none => simpa [writer] using listed
        | some table =>
          rw [writer] at listed
          rcases List.mem_append.mp listed with earlier | added
          · exact earlier
          · rw [List.mem_singleton.mp added] at refers
            exact absurd (Option.some.inj refers).symm new
      obtain ⟨row, found⟩ := sound.linked reference earlier protects orderId refers
      exact ⟨row, by simpa only [createOrder, AList.lookup_insert_ne new] using found⟩

theorem booked (sound : Sound tables) (orderId : OrderId) (day : Int) :
    Sound (bookFill tables orderId day) := by
  unfold bookFill
  split
  · exact sound
  · exact ⟨sound.drawn, sound.origin, sound.linked⟩

end Sound

section Cleanup

variable {tables : OrderTables} {day : Int}

theorem isProtected_of_reference {reference : Reference} {orderId : OrderId}
    (listed : reference ∈ tables.references) (protects : reference.table ∈ protectedTables)
    (refers : reference.orderId = some orderId) : tables.isProtected orderId = true := by
  unfold OrderTables.isProtected
  rw [List.any_eq_true]
  exact ⟨reference, listed, by simp [protects, refers]⟩

theorem rerunCleanup_survivor {orderId : OrderId} {order : OrderRow}
    (found : tables.orders.lookup orderId = some order)
    (survives : order.signalDate ≠ day ∨ tables.isProtected orderId = true) :
    (rerunCleanup tables day).orders.lookup orderId =
      some (requeue tables (survivingFills tables day) orderId order) := by
  simp only [rerunCleanup, survivingOrders, lookup_mapRows, lookup_filterRows, found]
  rcases survives with other | kept
  · simp [Option.filter, other]
  · simp [Option.filter, kept]

/-- A cleanup keeps the tables sound. -/
theorem Sound.cleaned (sound : Sound tables) (day : Int) : Sound (rerunCleanup tables day) := by
  have survivors : Sound { tables with orders := survivingOrders tables day } := by
    constructor
    · intro orderId order found
      simp only [survivingOrders, lookup_filterRows, Option.filter_eq_some_iff] at found
      exact sound.drawn orderId order found.1
    · intro orderId order found
      simp only [survivingOrders, lookup_filterRows, Option.filter_eq_some_iff] at found
      exact sound.origin orderId order found.1
    · intro reference listed protects orderId refers
      obtain ⟨order, found⟩ := sound.linked reference listed protects orderId refers
      have kept : tables.isProtected orderId = true :=
        isProtected_of_reference listed protects (Option.mem_def.mp refers)
      refine ⟨order, ?_⟩
      simp [survivingOrders, lookup_filterRows, found, Option.filter, kept]
  refine survivors.rewritten ?_ (survivingFills tables day)
  intro orderId order
  unfold requeue
  split
  · rfl
  · rfl

/-- Every act keeps the tables sound. -/
theorem Sound.acted (sound : Sound tables) (done : Act) : Sound (act tables done) := by
  have status : ∀ {tables : OrderTables}, Sound tables → ∀ orderId status reason,
      Sound (setStatus tables orderId status reason) := by
    intro tables sound orderId status reason
    refine sound.rewritten (fun other order => ?_) tables.fills
    split
    · rfl
    · rfl
  cases done with
  | generate day orders =>
    refine foldl_invariant Sound ?_ sound
    intro order _ reached sound
    refine sound.created ?_
    rintro _ ⟨⟩
    rfl
  | fill orderId day => exact status (sound.booked orderId day) orderId .filled none
  | reject orderId reason => exact status sound orderId .rejected (some reason)
  | cancel orderId reason => exact status sound orderId .cancelled (some reason)
  | ticket key terms => exact sound.created (by rintro _ ⟨⟩)
  | p15 key terms filledOn reason => exact sound.created (by rintro _ ⟨⟩)
  | restore orderId day => exact sound.booked orderId day
  | p16 key terms filledOn reason => exact sound.created (by rintro _ ⟨⟩)
  | submit key terms =>
    simp only [act, submitOrder]
    split
    · exact sound
    · exact sound.created (by rintro _ ⟨⟩)
  | rerun day => exact sound.cleaned day

theorem sound_reached (engine : String → Engine) (acts : List Act) :
    Sound (acts.foldl act (.initial engine)) := by
  refine foldl_invariant Sound (fun done _ reached sound => sound.acted done) ?_
  exact ⟨by rintro _ _ ⟨⟩, by rintro _ _ ⟨⟩, by rintro _ ⟨⟩⟩

/-- After any acts, a rerun deletes no order that was created outside the date's day-step,
an adapter's order of the date apart, and alters one only by making it pending again
when it was filled and its fill is gone. What a listed table refers to still exists, and so
does every order of another date. -/
theorem rerunCleanup_spares (engine : String → Engine) (acts : List Act) (day : Int) :
    (∀ orderId order origin,
      (acts.foldl act (.initial engine)).orders.lookup orderId = some order →
      (acts.foldl act (.initial engine)).origins.lookup orderId = some origin →
      origin ≠ .dayStep day → ¬ (origin = .adapter ∧ order.signalDate = day) →
      (rerunCleanup (acts.foldl act (.initial engine)) day).orders.lookup orderId = some order ∨
        order.status = .filled ∧
        (rerunCleanup (acts.foldl act (.initial engine)) day).fills.lookup orderId = none ∧
        (rerunCleanup (acts.foldl act (.initial engine)) day).orders.lookup orderId =
          some { order with status := .pending, rejectReason := none }) ∧
    (∀ reference ∈ (rerunCleanup (acts.foldl act (.initial engine)) day).references,
      ∀ orderId ∈ reference.orderId,
      (reference.table ∈ protectedTables ∨ ∃ order,
        (acts.foldl act (.initial engine)).orders.lookup orderId = some order ∧
        order.signalDate ≠ day) →
      ∃ order, (rerunCleanup (acts.foldl act (.initial engine)) day).orders.lookup orderId =
        some order) := by
  have sound := sound_reached engine acts
  generalize acts.foldl act (.initial engine) = tables at sound ⊢
  refine ⟨fun orderId order origin found known outside notAdapter => ?_, ?_⟩
  · obtain ⟨creator, stored, onDay, referred⟩ := sound.origin orderId order found
    rw [known, Option.some.injEq] at stored
    subst stored
    have survives : order.signalDate ≠ day ∨ tables.isProtected orderId = true := by
      by_cases dated : order.signalDate = day
      · refine .inr ?_
        cases origin with
        | dayStep made => exact absurd (congrArg Origin.dayStep (onDay made rfl ▸ dated)) outside
        | ticket =>
          obtain ⟨key, listed⟩ := referred .discTickets rfl
          exact isProtected_of_reference listed (by simp [protectedTables]) rfl
        | p15 =>
          obtain ⟨key, listed⟩ := referred .p15OrderIntents rfl
          exact isProtected_of_reference listed (by simp [protectedTables]) rfl
        | p16 =>
          obtain ⟨key, listed⟩ := referred .p16OrderIntents rfl
          exact isProtected_of_reference listed (by simp [protectedTables]) rfl
        | adapter => exact absurd ⟨rfl, dated⟩ notAdapter
      · exact .inl dated
    rw [rerunCleanup_survivor found survives]
    unfold requeue
    split
    · rename_i emptied
      exact .inr ⟨emptied.1, emptied.2.2, rfl⟩
    · exact .inl rfl
  · rintro reference listed orderId refers (protects | ⟨order, found, other⟩)
    · exact (sound.cleaned day).linked reference listed protects orderId refers
    · exact ⟨_, rerunCleanup_survivor found (.inl other)⟩

/-- A rerun of day 10 deletes the adapter's order of the day and leaves the adapter's key
behind. The ticket's order, which the day filled, is pending again. -/
theorem adapterOrder_dangles :
    let tables := [Act.submit "key" ⟨"book", "AAPL", .buy, 5, 10⟩,
      .ticket "1" ⟨"book", "MSFT", .buy, 5, 9⟩, .fill 2 10].foldl act (.initial fun _ => .league)
    (tables.origins.lookup 1 = some .adapter ∧ (tables.orders.lookup 1).isSome ∧
      (rerunCleanup tables 10).orders.lookup 1 = none ∧
      ⟨.simulatorBrokerOrderKeys, "key", some 1⟩ ∈ (rerunCleanup tables 10).references) ∧
    tables.origins.lookup 2 = some .ticket ∧
      (rerunCleanup tables 10).orders.lookup 2 ≠ tables.orders.lookup 2 := by
  decide +kernel

end Cleanup

end TradingEngine.League
