import TradingEngine.SettlementSafety
import TradingEngine.FoldWrites

/-!
# Folds that never raise on an order

The book that a fold starts from holds nothing, and its entries keep the account
sound: recorded events replay fills that are in the ledger, and an execution
records the fill of the order that it closes. So in a run whose turns are all
settleable, no accepted order ever makes settlement raise.
-/

namespace TradingEngine.Accounts

open KeyedTables OrderTypes Nyse Ledger Costs Fills Runs

variable {zone : Zone}

variable {world : World zone} {account : Account}

/-- The book that a fold starts from is sound: nothing but splits came before. -/
theorem openFold_sound {opened : Account} {stop : Int}
    {plan : FoldPlan} (done : openFold world account stop = .ok (opened, plan))
    (known : OrderId → Prop) : Carried opened.book ∧ Rooted known opened.book := by
  obtain ⟨_, book, _, rebuilt, rfl, _⟩ := openFold_ok done
  change Carried book ∧ Rooted known book
  unfold rebuildState at rebuilt
  split at rebuilt
  · cases rebuilt
  · rename_i sequence listed
    refine foldlM_invariant (fun state => Carried state ∧ Rooted known state) ?_
      ⟨opening_carried _, opening_rooted _ _⟩ rebuilt
    intro event member state next sound replayed
    obtain ⟨recorded, window⟩ := (mem_events listed).mp member
    have before : event.date zone .account < plan.start := by
      simp only [Event.within, Option.all_none, Option.all_some, Bool.true_and,
        decide_eq_true_eq] at window
      exact Int.lt_of_le_sub_one window
    obtain ⟨ticker, ex, ratio, rfl⟩ := split_of_before done recorded before
    cases replayed
    exact ⟨applySplit_carried sound.1 ticker ex ratio.value,
      applySplit_rooted sound.2 ticker ex ratio.positive⟩

/-- Entries only add fills. -/
theorem applyItem_fills_kept {session : Session} {next : Account}
    {item : Item} {id : OrderId} (recorded : account.ledger.fills.lookup id ≠ none)
    (applied : applyItem world session account item = .ok next) :
    next.ledger.fills.lookup id ≠ none := by
  cases executes : item.order with
  | none => rwa [(applyItem_booksOnly executes applied).fills]
  | some order =>
    cases item with
    | execute row result =>
      obtain ⟨outcome, settled, rfl⟩ := map_ok.mp applied
      rcases settleOrder_books settled with ⟨_, same⟩ | ⟨_, _, _, _, _, _, _, inserted, _⟩
      · rwa [same]
      · rw [inserted]
        by_cases here : id = row.orderId
        · simp [here]
        · rwa [AList.lookup_insert_ne here]
    | _ => cases executes

variable {settings : AccountSettings}

theorem recorded_listed {begun state : Account}
    {day : Int} {sequence : List Event} {event : Event}
    (visited : (state, Item.recorded event) ∈ sessionVisits world settings begun day sequence) :
    event ∈ sequence := by
  have member := visitedM_mem _ visited
  unfold sessionItems at member
  rw [List.mem_insertionSort] at member
  simp only [List.mem_append, List.mem_map, List.mem_cons, List.not_mem_nil, or_false, reduceCtorEq,
    and_false, exists_false, Item.recorded.injEq, exists_eq_right] at member
  exact List.mem_of_mem_filter member

theorem recorded_fill_known {begun state : Account}
    {day : Int} {sequence : List Event} {orderId : OrderId} {row : FillRow}
    (listed : events zone .account begun.ledger (some day) (some day) = .ok sequence)
    (visited : (state, Item.recorded (.fill orderId row)) ∈
      sessionVisits world settings begun day sequence) :
    state.ledger.fills.lookup orderId ≠ none := by
  have initially : begun.ledger.fills.lookup orderId ≠ none := by
    rw [fill_mem_rows.mp ((mem_events listed).mp (recorded_listed visited)).1]
    simp
  exact visitedM_invariant (fun state => state.ledger.fills.lookup orderId ≠ none)
    (fun visit _ next kept applied => applyItem_fills_kept kept applied) initially _ visited

theorem Rooted.mono {known more : OrderId → Prop} {book : Book} (rooted : Rooted known book)
    (wider : ∀ id, known id → more id) : Rooted more book :=
  ⟨⟨fun key lot found => wider _ (rooted.lots.known key lot found), rooted.lots.priced⟩,
    rooted.priced⟩

theorem executing_unfilled {begun state : Account}
    {day : Int} {sequence : List Event} {row : PendingRow} {result : FillResult}
    (settled : FillsSettled state)
    (visited : (state, Item.execute row result) ∈
      sessionVisits world settings begun day sequence) :
    state.ledger.fills.lookup row.orderId = none := by
  obtain ⟨_, order, found, _, stored, _⟩ := executing_order visited
  by_contra present
  obtain ⟨other, same, filled⟩ := settled row.orderId present
  obtain rfl : order = other := Option.some.inj (found.symm.trans same)
  have pending := (pendingRow_queued stored).1
  simp [filled] at pending

/-- Recorded fills belong to orders of a kind. -/
def FillsHave (sound : Order → Prop) (account : Account) : Prop :=
  ∀ id, account.ledger.fills.lookup id ≠ none →
    ∃ order, account.orders.lookup id = some order ∧ sound order

/-- A kind of filled order that settlement makes and that writes keep. -/
structure FilledKind (sound : Order → Prop) : Prop where
  filled : ∀ order, sound order → order.status = .filled
  kept : ∀ order next, Write false order next → sound order → sound next
  made : ∀ (order : Order) reason stateAt, order.details.isSome →
    sound (order.withState .filled reason stateAt)

theorem Write.filled {order next : Order} (write : Write false order next)
    (filled : order.status = .filled) : next.status = .filled := by
  cases write with
  | settled reason stateAt queued closes => simp [queued.1] at filled
  | waited stateAt queued stored => simp [queued.1] at filled
  | cancelled reason stateAt pending => simp [pending] at filled
  | lapsed reason stateAt queued => simp [queued.1] at filled
  | stale reason pending => simp [pending] at filled
  | swept => simp [settleCancel, filled]

theorem filledKind_status : FilledKind fun order : Order => order.status = .filled :=
  ⟨fun _ filled => filled, fun _ _ write => write.filled, fun _ _ _ _ => rfl⟩

/-- Settling an order keeps recorded fills with orders of their kind. -/
theorem settleOrder_fillsHave {sound : Order → Prop} (kind : FilledKind sound)
    {session : Session} {row : PendingRow} {result : FillResult}
    {outcome : Account × Settled} (before : FillsHave sound account)
    (unfilled : account.ledger.fills.lookup row.orderId = none)
    (present : ∃ order, account.orders.lookup row.orderId = some order ∧ order.details.isSome)
    (settled : settleOrder world session account row result = .ok outcome) :
    FillsHave sound outcome.1 := by
  have others : ∀ id, id ≠ row.orderId → account.ledger.fills.lookup id ≠ none →
      ∃ order, outcome.1.orders.lookup id = some order ∧ sound order := by
    intro id different recorded
    rw [settleOrder_otherOrders different settled]
    exact before id recorded
  rcases settleOrder_books settled with ⟨_, same⟩ | ⟨_, _, _, _, _, _, _, inserted, written⟩
  · intro id recorded
    rw [same] at recorded
    refine others id ?_ recorded
    rintro rfl
    exact recorded unfilled
  · intro id recorded
    by_cases here : id = row.orderId
    · subst here
      obtain ⟨order, found, detailed⟩ := present
      refine ⟨order.withState .filled row.stateReason world.now, ?_, kind.made _ _ _ detailed⟩
      simp [written, lookup_rewriteOrder, found]
    · rw [inserted, AList.lookup_insert_ne here] at recorded
      exact others id here recorded

theorem pendingRow_detailed {id : OrderId} {order : Order} {row : PendingRow}
    (pending : pendingRow id order = some row) : order.details.isSome := by
  obtain ⟨_, details, stored, _⟩ := pendingRow_queued pending
  rw [stored]
  rfl

/-- The fill that an execution books compares no dust. -/
theorem Execution.clean {session : Session}
    {row : PendingRow} {terms : FillTerms} (execution : Execution world session account row terms)
    (sound : SoundAccount account) (positive : 0 < row.qty) (priced : 0 < terms.fillPx)
    (closes : (row.side = .sell → row.qty ≤ (account.book.position row.ticker).qty) ∧
      (row.side = .cover → row.qty ≤ -(account.book.position row.ticker).qty))
    (clean : row.side.closing = true → CleanMatch account.ledger.times account.book.lots
      row.ticker row.qty (row.side = .cover)) :
    CleanStep account.ledgerSettings account.book (.fill account.ledger.times
      (executedFill row execution.sized.qty terms session.day) (some execution.sized.fees)) := by
  obtain ⟨fees, charged, sizing⟩ := sizeFill_margin sound.margin positive priced
  have whole : execution.sized = ⟨row.qty, fees⟩ := by
    have sized := execution.sizing.symm.trans sizing
    split at sized
    · cases sized
    · simpa using sized
  rw [whole]
  intro qty traded closing
  have fits : Fits row.side (account.book.position row.ticker).qty row.qty := by
    cases side : row.side with
    | sell => exact closes.1 side
    | cover => exact closes.2 side
    | buy => simp [executedFill, side, Side.closing] at closing
    | short => simp [executedFill, side, Side.closing] at closing
  have quantity : fillQty account.ledgerSettings account.book
      (executedFill row row.qty terms session.day) (some fees) = .ok (some row.qty) := by
    refine fillQty_fits sound.margin (by simp [executedFill]) ⟨positive, priced, one_pos⟩ ?_
      (sound.rooted.priced row.ticker) fits
    rintro known ⟨⟩
    exact charge_nonneg charged
  rw [quantity] at traded
  obtain rfl : row.qty = qty := by simpa [Except.toOption] using traded
  exact clean closing

/-- An entry of a fold keeps a sound account sound. -/
theorem applyItem_sound {next : Account} {stop : Int} {turn : Turn}
    (member : turn ∈ foldTurns world account stop) (sound : SoundAccount turn.account)
    (clean : turn.Clean world)
    (applied : applyItem world turn.session turn.account turn.item = .ok next) :
    SoundAccount next := by
  obtain ⟨day, sequence, _, listed, session, visited⟩ := mem_foldTurns member
  have administration := applyItem_administration applied
  have margin : next.settings.accountType = .margin := by
    have settings : next.settings = turn.account.settings :=
      congrArg Administration.settings administration
    rw [settings]
    exact sound.margin
  have money : MoneyOnly turn.account next → SoundAccount next := by
    rintro ⟨books, amount, credited⟩
    refine ⟨margin, ?_, ?_, ?_⟩
    · rw [credited]
      exact ⟨sound.carried.carried, sound.carried.rowed⟩
    · rw [credited, books.fills]
      exact ⟨sound.rooted.lots, sound.rooted.priced⟩
    · intro id recorded
      rw [books.fills] at recorded
      rw [books.orders]
      exact sound.settled id recorded
  cases item : turn.item with
  | recorded event =>
    rw [item] at applied visited
    simp only [Turn.Clean, item] at clean
    obtain ⟨book, replayed, done⟩ := bind_ok.mp applied
    cases done
    have replayed := ofLedger_ok.mp replayed
    refine ⟨margin, replayEvent_carried rfl sound.carried clean replayed,
      replayEvent_rooted sound.rooted ?_ replayed, sound.settled⟩
    rintro orderId row rfl
    have kept := recorded_fill_known listed visited
    exact kept
  | interest =>
    rw [item] at applied
    cases applied
    exact money (accrueInterest_moneyOnly _ _ _)
  | dividends =>
    rw [item] at applied
    exact money (creditDividends_moneyOnly applied)
  | borrow =>
    rw [item] at applied
    exact money (accrueBorrow_moneyOnly applied)
  | execute row result =>
    rw [item] at applied visited
    obtain ⟨outcome, settled, rfl⟩ := map_ok.mp applied
    obtain ⟨_, order, found, _, stored, _, _, attempted⟩ := executing_order visited
    have unfilled := executing_unfilled sound.settled visited
    have fills := settleOrder_fillsHave filledKind_status sound.settled unfilled
      ⟨order, found, pendingRow_detailed stored⟩ settled
    rcases settleOrder_books settled with ⟨book, same⟩ | ⟨qty, terms, flagged, ready, priced,
      execution, book, inserted, _⟩
    · exact ⟨margin, by rw [book]; exact sound.carried, by rw [book, same]; exact sound.rooted, fills⟩
    · obtain ⟨positive, closes⟩ := preflight_go ready
      simp only [Turn.Clean, item, ready] at clean
      have price : 0 < terms.fillPx := (fillAttempt_filled (attempted.symm.trans priced)).priced
      have stepped := execution.clean (sound.afterPdt world turn.session flagged) positive price
        (by simpa) (by simpa)
      refine ⟨margin, ?_, ?_, fills⟩
      · rw [book]
        refine (applyFill_carried rfl ?_ stepped).1 _ execution.filled
        simpa using sound.carried
      · rw [book, inserted]
        refine applyFill_rooted ?_ ?_ execution.filled
        · rw [afterPdt_book]
          refine Rooted.mono sound.rooted ?_
          intro id recorded
          by_cases here : id = row.orderId
          · simp [here]
          · rwa [AList.lookup_insert_ne here]
        · rintro origin ⟨⟩
          simp

theorem foldTurns_sound {stop : Int}
    (margin : account.settings.accountType = .margin) (settled : FillsSettled account)
    (clean : ∀ turn ∈ foldTurns world account stop, turn.Clean world) :
    ∀ turn ∈ foldTurns world account stop, SoundAccount turn.account := by
  intro turn member
  refine (foldTurns_invariant SoundAccount ?_ ?_ ?_ turn member).2
  · intro opened plan done
    obtain ⟨carried, rooted⟩ := openFold_sound done fun id => opened.ledger.fills.lookup id ≠ none
    obtain ⟨_, _, _, _, rfl, _⟩ := openFold_ok done
    exact ⟨margin, carried, rooted, settled⟩
  · intro turn member next _ sound applied
    exact applyItem_sound member sound (clean turn member) applied
  · intro state day next sound marked
    obtain ⟨row, prices, rfl⟩ := markAccount_ok marked
    exact ⟨sound.margin, sound.carried, sound.rooted, sound.settled⟩

/-- Settleable turns of such a fold return. -/
theorem foldTurns_return {stop : Int}
    (margin : account.settings.accountType = .margin) (settled : FillsSettled account)
    (settleable : ∀ turn ∈ foldTurns world account stop, turn.Settleable world) :
    ∀ turn ∈ foldTurns world account stop, turn.Returns world := by
  intro turn member
  have sound := foldTurns_sound margin settled (fun turn inside => (settleable turn inside).2.2)
    turn member
  obtain ⟨day, sequence, _, _, _, visited⟩ := mem_foldTurns member
  cases item : turn.item with
  | execute row result =>
    rw [item] at visited
    obtain ⟨_, _, _, _, _, _, _, attempted⟩ := executing_order visited
    have returned : ∃ outcome, settleOrder world turn.session turn.account row result =
        .ok outcome := by
      refine settleOrder_returns turn.begun sound (executing_unfilled sound.settled visited) ?_ ?_
      · intro terms priced
        exact (fillAttempt_filled (attempted.symm.trans priced)).priced
      · have allowed := settleable turn member
        rw [← item]
        exact allowed
    obtain ⟨outcome, settles⟩ := returned
    simp [Turn.Returns, item, settles, Except.isOk, Except.toBool]
  | recorded event => simp [Turn.Returns, item]
  | interest => simp [Turn.Returns, item]
  | dividends => simp [Turn.Returns, item]
  | borrow => simp [Turn.Returns, item]

section FilledOrders

variable {sound : Order → Prop} (kind : FilledKind sound)

include kind

theorem fillsHave_lawful (fills : Table OrderId FillRow) :
    OrderLaw false true fun orders => ∀ id, fills.lookup id ≠ none →
      ∃ order, orders.lookup id = some order ∧ sound order :=
  .all fun id => .all fun _ => .oneRow id kind.kept

/-- A turn keeps recorded fills with orders of their kind. -/
theorem applyItem_fillsHave {world : World zone} {account next : Account} {stop : Int} {turn : Turn}
    (member : turn ∈ foldTurns world account stop) (before : FillsHave sound turn.account)
    (applied : applyItem world turn.session turn.account turn.item = .ok next) :
    FillsHave sound next := by
  obtain ⟨_, _, _, _, _, visited⟩ := mem_foldTurns member
  cases executes : turn.item.order with
  | none =>
    have books := applyItem_booksOnly executes applied
    intro id recorded
    rw [books.fills] at recorded
    rw [books.orders]
    exact before id recorded
  | some id =>
    cases item : turn.item with
    | execute row result =>
      rw [item] at visited applied
      obtain ⟨outcome, done, rfl⟩ := map_ok.mp applied
      obtain ⟨_, order, found, _, stored, _⟩ := executing_order visited
      have settled : FillsSettled turn.account := by
        intro id recorded
        obtain ⟨order, present, holds⟩ := before id recorded
        exact ⟨order, present, kind.filled order holds⟩
      exact settleOrder_fillsHave kind before (executing_unfilled settled visited)
        ⟨order, found, pendingRow_detailed stored⟩ done
    | recorded event => simp [item, Item.order] at executes
    | interest => simp [item, Item.order] at executes
    | dividends => simp [item, Item.order] at executes
    | borrow => simp [item, Item.order] at executes

/-- The day loop keeps recorded fills with orders of their kind. -/
theorem foldLoop_fillsHave {world : World zone} {account final : Account} {stop : Int}
    (before : FillsHave sound account) (completed : foldLoop world account stop = .ok final) :
    FillsHave sound final := by
  refine foldLoop_invariant (FillsHave sound) ?_ ?_ ?_ completed
  · intro opened plan done
    obtain ⟨_, _, _, _, rfl, _⟩ := openFold_ok done
    exact before
  · intro turn member next _ before applied
    exact applyItem_fillsHave kind member before applied
  · intro state day next before marked
    obtain ⟨row, prices, rfl⟩ := markAccount_ok marked
    exact before

theorem FoldCall.fillsHave {account changed : Account} {operation : Operation zone}
    {world : World zone} {stop : Int} {mutation : Account → Except AccountError Account}
    (call : FoldCall account operation world stop mutation)
    (mutated : mutation account = .ok changed) (before : FillsHave sound account) :
    FillsHave sound changed := by
  obtain ⟨_, tables, _, kept⟩ := call.mutates mutated
  unfold FillsHave
  rw [tables]
  exact kept _ _ _ (fillsHave_lawful kind account.ledger.fills) before

/-- Every call keeps recorded fills with orders of their kind. -/
theorem step_fillsHave {account : Account} (before : FillsHave sound account)
    (operation : Operation zone) : FillsHave sound (step account operation) := by
  rcases step_folds account operation with same | ⟨world, stop, mutation, folded, call, done, books,
    orders⟩
  · have ledger : (step account operation).ledger = account.ledger := congrArg Prod.snd same
    unfold FillsHave
    rw [ledger]
    exact step_orders (fillsHave_lawful kind account.ledger.fills) before (fun _ _ _ => rfl)
      (by simp) (by simp)
  · obtain ⟨_, _, done⟩ := bind_ok.mp done
    obtain ⟨changed, mutated, done⟩ := bind_ok.mp done
    obtain ⟨looped, loop, finished⟩ := bind_ok.mp done
    have after := foldLoop_fillsHave kind (call.fillsHave kind mutated before) loop
    have ledger : (step account operation).ledger = looped.ledger :=
      (congrArg Prod.snd books).trans (congrArg Prod.snd (finishFold_supervised finished).books)
    unfold FillsHave
    rw [ledger]
    refine orders _ _ (fillsHave_lawful kind looped.ledger.fills) ?_
    exact finishFold_orders (fillsHave_lawful kind looped.ledger.fills) after finished

end FilledOrders

/-- Calls change the status among an account's settings only. -/
theorem step_settings (account : Account) (operation : Operation zone) :
    ∃ status, (step account operation).settings = { account.settings with status := status } := by
  have winds : ∀ next, WindsDown account next →
      ∃ status, next.settings = { account.settings with status := status } :=
    fun _ down => ⟨_, down.settings⟩
  cases operation with
  | submit world intent =>
    change ∃ status, (submit world account intent).settings = _
    unfold submit
    split
    · rename_i accepted receipt submitted
      rcases submitIntent_ok submitted with ⟨rfl, _⟩ | ⟨_, _, _, _, _, rfl⟩
      · exact ⟨_, rfl⟩
      · exact ⟨_, rfl⟩
    · exact ⟨_, rfl⟩
  | cancel world id => exact winds _ (cancel_windsDown world account id)
  | settle world day => exact winds _ (settleSession_windsDown world account day)
  | halt world => exact winds _ (halt_windsDown world account)
  | resume world authorised =>
    change ∃ status, (resume world account authorised).settings = _
    unfold resume
    split
    · exact ⟨_, rfl⟩
    · split
      · exact winds _ (persistMismatch_windsDown world account none)
      · split
        · exact ⟨_, rfl⟩
        · exact ⟨_, rfl⟩
  | retire world =>
    change ∃ status, (retire world account).settings = _
    unfold retire
    split
    · exact ⟨_, rfl⟩
    · exact ⟨_, rfl⟩
    all_goals
      dsimp only
      split
      · exact ⟨_, rfl⟩
      · exact ⟨_, rfl⟩
  | finalizeRetirement world => exact winds _ (finalizeRetirement_windsDown world account)
  | reconcile world sessionDate evidence =>
    exact winds _ (reconcile_windsDown world account sessionDate evidence)
  | verify world sessionDate => exact winds _ (verifyAccount_windsDown world account sessionDate)
  | settlement world terms => exact winds _ (bookSettlement_windsDown world account terms)
  | reconcileSettled ticker => exact ⟨_, rfl⟩

theorem step_accountType (account : Account) (operation : Operation zone) :
    (step account operation).settings.accountType = account.settings.accountType := by
  obtain ⟨status, same⟩ := step_settings account operation
  rw [same]

/-- A call all of whose turns settlement can take. -/
def SettlesSafely (account : Account) (operation : Operation zone) : Prop :=
  ∀ folded ∈ foldedTurns account operation, ∀ turn ∈ folded.2, turn.Settleable folded.1

instance (account : Account) (operation : Operation zone) :
    Decidable (SettlesSafely account operation) := by
  unfold SettlesSafely
  infer_instance

/-- A steady world in which every name trades in volume and is easy to borrow. -/
def liquidWorld (day hours : Int) : World daylightTime :=
  { sampleWorld day hours with
    market := { (steadyMarket 10 ten_positive : Market daylightTime) with
      medianDollarVolume := fun _ _ _ _ => some 50000000 } }

/-- A Monday's buy, filled on Tuesday, and an order of Tuesday evening. -/
def boughtThen (side : Side) : List (Operation daylightTime) :=
  [.submit (liquidWorld 739768 22) (sampleIntent "entry" "SYM" .buy 100 739768),
    .settle (liquidWorld 739769 22) 739769,
    .submit (liquidWorld 739769 23) (sampleIntent "next" "SYM" side 50 739769),
    .settle (liquidWorld 739770 22) 739770]

end TradingEngine.Accounts
