import TradingEngine.AccountService
import TradingEngine.TicketDates

/-!
# The closing auctions of a retirement

A retirement queues a closing auction for every holding, for the session after the local
date of the request. An order for that session's close is received in time from the close
of the session before it. A request on the date of a session, before that session closes,
comes too early: its orders are rejected at the cutoff, and the account stays in retirement.
-/

namespace TradingEngine.Tickets

open Nyse

/-- The calendar zone of the clocks. -/
def NewYork.zone (clock : NewYork) : Zone where
  offset day := clock.offset (clock.opened day)
  offset_low day := clock.offset_low (clock.opened day)
  offset_high day := clock.offset_high (clock.opened day)
  localDate := clock.date

variable {clock : NewYork}

theorem closed_lt {day now : Int} (earlier : day < clock.date now) :
    closed clock.zone day < now := by
  obtain ⟨parts, low, -⟩ := @instant_parts clock now
  have behind := clock.offset_low now
  have ahead := clock.zone.offset_high day
  have hours := closeHour_cases day
  rw [parts]
  unfold closed dayLength hour minute at *
  omega

theorem lt_opened {day now : Int} (later : clock.date now < day) :
    now < opened clock.zone day := by
  obtain ⟨parts, -, high⟩ := @instant_parts clock now
  have ahead := clock.offset_high now
  have behind := clock.zone.offset_low day
  rw [parts]
  unfold opened dayLength hour minute at *
  omega

end TradingEngine.Tickets

namespace TradingEngine.Nyse

/-- A session opens at least ten minutes before it closes. -/
theorem opened_le_mocCutoff (zone : Zone) (day : Int) :
    opened zone day ≤ Fills.mocCutoff zone day := by
  have hours := closeHour_cases day
  unfold Fills.mocCutoff opened closed hour minute
  omega

theorem previousSession_nextSession_le (day : Int) :
    previousSession (nextSession day) ≤ day := by
  by_contra after
  have none := nextSession_first day (previousSession (nextSession day)) (by omega)
    (previousSession_earlier _)
  rw [previousSession_session] at none
  cases none

theorem previousSession_nextSession {day : Int} (session : isSession day = true) :
    previousSession (nextSession day) = day :=
  le_antisymm (previousSession_nextSession_le day)
    (session_le_previous session (nextSession_later day))

end TradingEngine.Nyse

namespace TradingEngine.Accounts

open KeyedTables OrderTypes Nyse Ledger Costs Fills Tickets

section Queued

variable {zone : Zone} (world : World zone)

/-- The closing auction that a retirement queues for a holding. -/
def liquidation (row : Ticker × ℚ) : Order :=
  forcedOrder row.1 (reducingSide row.2) |row.2| .moc OrderType.moc_unlimited
    (nextSession (zone.localDate world.now)) world.now .retirement

/-- The order as settlement reads it. -/
def liquidationRow (id : OrderId) (row : Ticker × ℚ) : PendingRow where
  orderId := id
  ticker := row.1
  side := reducingSide row.2
  qty := |row.2|
  signalDate := nextSession (zone.localDate world.now)
  orderType := .moc
  executable := true
  limitPx := none
  sessionDate := nextSession (zone.localDate world.now)
  receivedAt := world.now
  contingentOn := none
  stateReason := [.retirement]
  limited := fun limit => by cases limit

theorem pendingRow_liquidation (id : OrderId) (row : Ticker × ℚ) :
    pendingRow id (liquidation world row) = some (liquidationRow world id row) := by
  simp [pendingRow, liquidation, forcedOrder, liquidationRow]

variable {account : Account}

/-- Orders are only added, each for one of the holdings. -/
theorem queued_cases {world : World zone} {rows : List (Ticker × ℚ)}
    {id : OrderId} {order : Order}
    (found : (rows.foldl (fun account row =>
      account.queue world.orderSequence (liquidation world row)) account).orders.lookup id =
        some order) :
    account.orders.lookup id = some order ∨ ∃ row ∈ rows, order = liquidation world row := by
  induction rows generalizing account with
  | nil => exact .inl found
  | cons row rest ih =>
    rcases ih found with before | ⟨other, listed, same⟩
    · by_cases fresh : id = nextOrderId world.orderSequence account.orders
      · subst fresh
        dsimp only [Account.queue] at before
        rw [AList.lookup_insert] at before
        exact .inr ⟨row, List.mem_cons_self, (Option.some.inj before).symm⟩
      · dsimp only [Account.queue] at before
        rw [AList.lookup_insert_ne fresh] at before
        exact .inl before
    · exact .inr ⟨other, List.mem_cons_of_mem _ listed, same⟩

theorem queued_kept {world : World zone} {rows : List (Ticker × ℚ)}
    {id : OrderId} {order : Order}
    (found : account.orders.lookup id = some order) :
    (rows.foldl (fun account row =>
      account.queue world.orderSequence (liquidation world row)) account).orders.lookup id =
        some order := by
  induction rows generalizing account with
  | nil => exact found
  | cons row rest ih =>
    apply ih
    have taken : id ≠ nextOrderId world.orderSequence account.orders := by
      rintro rfl
      rw [nextOrderId_missing] at found
      cases found
    dsimp only [Account.queue]
    rw [AList.lookup_insert_ne taken, found]

theorem queued_first (row : Ticker × ℚ) (rest : List (Ticker × ℚ)) (account : Account) :
    ∃ id, account.orders.lookup id = none ∧
      ((row :: rest).foldl (fun account row =>
        account.queue world.orderSequence (liquidation world row)) account).orders.lookup id =
          some (liquidation world row) := by
  refine ⟨nextOrderId world.orderSequence account.orders, nextOrderId_missing _ _, ?_⟩
  rw [List.foldl_cons]
  apply queued_kept
  dsimp only [Account.queue]
  rw [AList.lookup_insert]

/-- The orders after a first request. -/
theorem retire_queues (retiring : account.settings.status ≠ .retiring)
    (retired : account.settings.status ≠ .retired) :
    (retire world account).orders = (account.book.held.foldl (fun account row =>
      account.queue world.orderSequence (liquidation world row))
        (cancelOpenings account world.now)).orders := by
  have same : (queueLiquidation world (cancelOpenings account world.now)).orders =
      (account.book.held.foldl (fun account row =>
        account.queue world.orderSequence (liquidation world row))
          (cancelOpenings account world.now)).orders := rfl
  unfold retire
  split
  · rename_i status
    exact absurd status retired
  · rename_i status
    exact absurd status retiring
  all_goals
    dsimp only
    split <;> exact same

theorem lookup_cancelOpenings_none {now : Int} {id : OrderId} :
    (cancelOpenings account now).orders.lookup id = none ↔ account.orders.lookup id = none := by
  unfold cancelOpenings cancelWhere
  rw [lookup_mapRows, Option.map_eq_none_iff]

end Queued

/-- An order is executable as a closing auction: it is received inside the window of its
session, no evaluation on that session rejects it at the cutoff, and a trusted bar of the
session fills it at the close unless the volume is known and too small. -/
def ExecutableAtClose (zone : Zone) (row : PendingRow) : Prop :=
  row.orderType = .moc ∧ receivedAtAllowed zone .moc row.sessionDate row.receivedAt = true ∧
    ∀ (later : World zone) (settled : Account),
      let attempt :=
        fillAttempt later settled (prepareOrder later row row.sessionDate) row.sessionDate
      attempt ≠ .rejected .cutoff none ∧
        ∀ bar, later.market.dailyBar settled.settings.priceSource row.ticker row.sessionDate
            later.now = some bar →
          later.market.medianDollarVolume settled.settings.priceSource row.ticker row.sessionDate
            (some later.now) = none →
          ∃ terms, attempt = .filled terms ∧ terms.fillTs = closed zone row.sessionDate

/-- Every order that a retirement adds is executable. -/
def LiquidationsExecutable {zone : Zone} (world : World zone) (account : Account) : Prop :=
  ∀ id order, account.orders.lookup id = none →
    (retire world account).orders.lookup id = some order →
    ∃ row, pendingRow id order = some row ∧ ExecutableAtClose zone row

/-- The closing auction after a date is received in time when that date has no session or
its session has closed. -/
theorem moc_allowed_iff (clock : NewYork) (now : Int) :
    receivedAtAllowed clock.zone .moc (nextSession (clock.date now)) now = true ↔
      (isSession (clock.date now) = true → closed clock.zone (clock.date now) ≤ now) := by
  have before : now ≤ mocCutoff clock.zone (nextSession (clock.date now)) :=
    (lt_opened (nextSession_later _)).le.trans (opened_le_mocCutoff _ _)
  have window : receivedAtAllowed clock.zone .moc (nextSession (clock.date now)) now = true ↔
      closed clock.zone (previousSession (nextSession (clock.date now))) ≤ now := by
    unfold receivedAtAllowed
    rw [nextSession_session, decide_eq_true before, Bool.true_and, Bool.and_true,
      decide_eq_true_iff]
    exact Iff.rfl
  rw [window]
  constructor
  · intro past session
    rwa [previousSession_nextSession session] at past
  · intro past
    rcases eq_or_lt_of_le (previousSession_nextSession_le (clock.date now)) with same | earlier
    · have session := previousSession_session (nextSession (clock.date now))
      rw [same] at session ⊢
      exact past session
    · exact (closed_lt earlier).le

/-- Splits scale a quantity by a positive factor. -/
theorem prepareOrder_qty_pos {zone : Zone} (world : World zone) {row : PendingRow} (day : Int)
    (positive : 0 < row.qty) : 0 < (prepareOrder world row day).qty := by
  have general : ∀ (actions : List (Σ _ : Ticker × Int, CorporateAction)) (factor : ℚ), 0 < factor →
      (∀ action ∈ actions, 0 < action.2.value) →
      0 < actions.foldl (fun factor action => factor * action.2.value) factor := by
    intro actions
    induction actions with
    | nil => exact fun factor holds _ => holds
    | cons action rest ih =>
      intro factor holds scales
      exact ih _ (mul_pos holds (scales action List.mem_cons_self))
        fun other listed => scales other (List.mem_cons_of_mem _ listed)
  refine mul_pos positive (general _ 1 one_pos fun action listed => ?_)
  have kept := (List.mem_filter.mp listed).2
  simp only [Bool.and_eq_true, decide_eq_true_eq] at kept
  exact kept.1.1.2

theorem v2Result_inTime {zone : Zone} {market : Market zone} {profile : ExecutionProfile}
    {side : Side} {qty reference : ℚ} {volume : Option ℚ} {friction : Friction} {kind : FillKind}
    {fillTs : Int} :
    v2Result market profile side qty reference volume friction kind fillTs ≠
      .rejected .cutoff none := by
  unfold v2Result
  dsimp only
  split_ifs <;> nofun

/-- A close without a known volume prices every order. -/
theorem v2Result_unknownVolume {zone : Zone} (market : Market zone) (profile : ExecutionProfile)
    (side : Side) {qty reference : ℚ} (kind : FillKind) (fillTs : Int) (traded : 0 < qty)
    (referenced : 0 < reference) :
    ∃ terms, v2Result market profile side qty reference none
      ⟨halfSpreadBps none / 2, false, true, 0⟩ kind fillTs = .filled terms ∧
        terms.fillTs = fillTs := by
  have priced : 0 < reference * (1 + side.sign *
      (25 / 2 * profile.spreadMultiplier + 0 + 0 + 0) / 10000) := by
    apply mul_pos referenced
    cases side <;> cases profile <;> norm_num [Side.sign, ExecutionProfile.spreadMultiplier]
  unfold v2Result
  rw [if_neg (not_le.mpr traded), if_neg (not_le.mpr referenced)]
  simp only [Option.mem_def, reduceCtorEq, false_and, exists_const, if_false, lt_irrefl,
    and_false, Bool.false_eq_true, halfSpreadBps]
  rw [if_neg (not_le.mpr priced)]
  exact ⟨_, rfl, rfl⟩

theorem fillAttempt_closing {zone : Zone} {row : PendingRow} (auction : row.orderType = .moc)
    (traded : 0 < row.qty) (unlimited : row.limitPx = none) (later : World zone)
    (settled : Account) (day : Int) :
    fillAttempt later settled (prepareOrder later row day) day =
      attemptAuctionFill later.market settled.settings.priceSource settled.executionProfile
        (prepareOrder later row day) false day later.now (penaltyBps row) := by
  have admitted : orderRefusal (prepareOrder later row day) = none := by
    unfold orderRefusal
    rw [if_neg (not_le.mpr (prepareOrder_qty_pos later day traded)), if_neg]
    rintro ⟨limitPx, known, -⟩
    simp [prepareOrder, unlimited] at known
  unfold fillAttempt
  dsimp only
  rw [admitted]
  dsimp only
  -- only the closing auction is left of the order types
  split <;> rename_i other <;> cases other.symm.trans auction
  rfl

/-- A closing auction that is received in time is executable. -/
theorem executableAtClose_of_received {zone : Zone} {row : PendingRow}
    (auction : row.orderType = .moc) (traded : 0 < row.qty) (unlimited : row.limitPx = none)
    (unpenalised : penaltyBps row = 0)
    (allowed : receivedAtAllowed zone .moc row.sessionDate row.receivedAt = true) :
    ExecutableAtClose zone row := by
  refine ⟨auction, allowed, fun later settled => ?_⟩
  have scaled := prepareOrder_qty_pos later row.sessionDate traded
  dsimp only
  rw [fillAttempt_closing auction traded unlimited, unpenalised]
  unfold attemptAuctionFill
  rw [if_neg (not_le.mpr scaled), if_neg (by simpa [prepareOrder, auction] using allowed)]
  constructor
  · split
    · nofun
    · exact v2Result_inTime
  · intro bar seen unknown
    have prepared : (prepareOrder later row row.sessionDate).ticker = row.ticker := rfl
    rw [prepared, seen]
    dsimp only
    rw [unknown]
    exact v2Result_unknownVolume _ _ _ _ _ scaled bar.positive.2

theorem held_ne_zero {book : Book} {row : Ticker × ℚ} (listed : row ∈ book.held) : row.2 ≠ 0 := by
  obtain ⟨position, kept, rfl⟩ := List.mem_map.mp listed
  obtain ⟨entry, sorted, rfl⟩ := List.mem_map.mp kept
  have present := (List.mem_insertionSort _).mp sorted
  simpa using (List.mem_filter.mp present).2

theorem retire_repeated {zone : Zone} (world : World zone) {account : Account}
    (leaving : account.settings.status = .retiring ∨ account.settings.status = .retired) :
    retire world account = account := by
  unfold retire
  rcases leaving with status | status <;> rw [status]

/-- The orders of a retirement are executable exactly when it adds none, for it was requested
before or nothing is held, or when the date of the request has no session or its session
has closed. -/
theorem liquidationsExecutable_iff (clock : NewYork) (world : World clock.zone)
    (account : Account) :
    LiquidationsExecutable world account ↔
      account.settings.status = .retiring ∨ account.settings.status = .retired ∨
        account.book.held = [] ∨ isSession (clock.date world.now) = false ∨
        closed clock.zone (clock.date world.now) ≤ world.now := by
  by_cases leaving : account.settings.status = .retiring ∨ account.settings.status = .retired
  · have none : LiquidationsExecutable world account := by
      intro id order absent found
      rw [retire_repeated world leaving, absent] at found
      cases found
    exact iff_of_true none (leaving.elim .inl fun status => .inr (.inl status))
  rw [← or_assoc, or_iff_right leaving]
  rw [not_or] at leaving
  have orders := retire_queues world leaving.1 leaving.2
  have allowed := moc_allowed_iff clock world.now
  constructor
  · intro executable
    cases holdings : account.book.held with
    | nil => exact .inl rfl
    | cons row rest =>
      right
      obtain ⟨id, absent, found⟩ := queued_first world row rest
        (cancelOpenings account world.now)
      rw [← holdings, ← orders] at found
      obtain ⟨pending, read, -, received, -⟩ :=
        executable id _ (lookup_cancelOpenings_none.mp absent) found
      rw [pendingRow_liquidation] at read
      cases read
      have closedOr := allowed.mp received
      cases session : isSession (clock.date world.now) with
      | false => exact .inl rfl
      | true => exact .inr (closedOr session)
  · intro condition id order absent found
    rw [orders] at found
    rcases queued_cases found with before | ⟨row, listed, rfl⟩
    · rw [lookup_cancelOpenings_none.mpr absent] at before
      cases before
    · refine ⟨_, pendingRow_liquidation world id row, ?_⟩
      refine executableAtClose_of_received rfl (abs_pos.mpr (held_ne_zero listed)) rfl rfl ?_
      refine allowed.mpr fun session => ?_
      rcases condition with empty | closedDay | closed
      · rw [empty] at listed
        cases listed
      · rw [session] at closedDay
        cases closedDay
      · exact closed

/-- An account that holds ten shares. -/
def holdingAccount : Account :=
  { sampleAccount with
    settings := { sampleAccount.settings with status := .active }
    book := ⟨9000, (∅ : Table Ticker Position).insert "XYZ" ⟨10, 100⟩, ∅, []⟩ }

/-- Ten in the morning of a Monday. -/
def mondayMorning : World summerClocks.zone :=
  worldAt (steadyMarket 100 hundred_positive) (ordinal 2026 10 12 * dayLength + 14 * hour)

/-- A request in the morning of a session queues an auction that is rejected at the cutoff. -/
theorem liquidations_not_executable :
    ¬∀ (clock : NewYork) (world : World clock.zone) (account : Account),
      LiquidationsExecutable world account := by
  intro every
  obtain ⟨row, read, -, allowed, -⟩ := every summerClocks mondayMorning holdingAccount 1
    (liquidation mondayMorning ("XYZ", 10)) (by decide +kernel) (by decide +kernel)
  rw [pendingRow_liquidation] at read
  cases read
  revert allowed
  decide +kernel

end TradingEngine.Accounts
