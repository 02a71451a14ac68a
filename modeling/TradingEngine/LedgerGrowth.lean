import TradingEngine.BookSoundness

/-!
# Rows added behind a date

Replay through a date reads the rows up to it, and the recorded times of their
fills. Rows that are only added, and dated later, leave it as it was. The tables
keep new rows in front, so the rows up to the date are the same list.
-/

namespace TradingEngine.Ledger

open KeyedTables OrderTypes Nyse Runs

/-- The queue of a close depends on the recorded times of the lots only. -/
theorem fifo_congr {times other : FillTimes} {lots : Lots}
    (agree : ∀ row ∈ lots.entries, times row.1.2 = other row.1.2) (ticker : Ticker)
    (closingShort : Bool) :
    fifo times lots ticker closingShort = fifo other lots ticker closingShort := by
  have listed : ∀ row ∈ closable lots ticker closingShort, times row.1 = other row.1 := by
    intro row member
    obtain ⟨entry, inside, taken⟩ := List.mem_filterMap.mp member
    split at taken
    · cases taken
      exact agree entry inside
    · cases taken
  have mapped := List.map_insertionSort (fun a b => fifoLe times a b)
    (fun a b => fifoLe other a b) id (closable lots ticker closingShort) (by
      intro a first b second
      simp only [fifoLe, listed a first, listed b second, id])
  simpa [fifo] using mapped

variable {known : OrderId → Prop} {times other : FillTimes}
  (agree : ∀ orderId, known orderId → times orderId = other orderId)

include agree

theorem matchLots_congr {lots : Lots} (rooted : RootedLots known lots) (ticker : Ticker) (qty : ℚ)
    (closingShort consume : Bool) :
    matchLots times lots ticker qty closingShort consume =
      matchLots other lots ticker qty closingShort consume := by
  unfold matchLots
  rw [fifo_congr]
  intro row member
  exact agree _ (rooted.known row.1 row.2 (lookup_of_mem member))

variable {settings : LedgerSettings} {book : Book}

theorem applyFill_congr (rooted : Rooted known book)
    (fill : Fill) (fees : Option Fees) :
    applyFill settings times book fill fees = applyFill settings other book fill fees := by
  unfold applyFill moveLots
  simp only [matchLots_congr agree rooted.lots]

theorem applySettlementEvent_congr
    (rooted : Rooted known book) (terms : SettlementTerms) :
    applySettlementEvent settings times book terms =
      applySettlementEvent settings other book terms := by
  unfold applySettlementEvent paidOut settledLots
  simp only [matchLots_congr agree rooted.lots]

theorem replayEvent_congr (rooted : Rooted known book)
    (event : Event) :
    replayEvent settings times book event = replayEvent settings other book event := by
  unfold replayEvent applyEvent
  cases event with
  | fill orderId row => simp only [applyFill_congr agree rooted]
  | settlement ticker effective row => simp only [applySettlementEvent_congr agree rooted]
  | _ => rfl

/-- Replay under times that agree on the orders it replays. -/
theorem replay_congr {sequence : List Event}
    (rooted : Rooted known book)
    (listed : ∀ orderId row, Event.fill orderId row ∈ sequence → known orderId) :
    sequence.foldlM (replayEvent settings times) book =
      sequence.foldlM (replayEvent settings other) book := by
  induction sequence generalizing book with
  | nil => rfl
  | cons event rest ih =>
    rw [List.foldlM_cons, List.foldlM_cons, replayEvent_congr agree rooted]
    cases replayed : replayEvent settings other book event with
    | error raised => rfl
    | ok next =>
      refine ih (replayEvent_rooted rooted ?_ replayed) ?_
      · rintro orderId row rfl
        exact listed orderId row List.mem_cons_self
      · intro orderId row member
        exact listed orderId row (List.mem_cons_of_mem _ member)

omit agree

theorem Event.date_cash (zone : Zone) (engine : Engine) (eventDate : Int) (seq : Nat)
    (row : CashRow) : (Event.cash eventDate seq row).date zone engine = eventDate := by
  unfold Event.date Event.stamp
  dsimp only
  split
  · exact dateOf_opened zone eventDate
  · split
    · assumption
    · exact dateOf_closed zone eventDate

/-- Tables to which rows dated from a day on were added. -/
structure Appended (since : Int) (before after : LedgerTables) : Prop where
  initialCash : after.initialCash = before.initialCash
  splits : after.splits = before.splits
  settlements : after.settlements = before.settlements
  dividends : Grown (fun key _ => since ≤ key.2) before.dividends after.dividends
  cashEvents : Grown (fun key _ => since ≤ key.1) before.cashEvents after.cashEvents
  fills : Grown (fun _ row => ∃ instant, row.fillTs = some instant ∧ since ≤ dateOf instant)
    before.fills after.fills

namespace Appended

variable {since : Int} {before after : LedgerTables}

theorem refl (since : Int) (ledger : LedgerTables) : Appended since ledger ledger :=
  ⟨rfl, rfl, rfl, .refl _, .refl _, .refl _⟩

theorem trans {later : LedgerTables} (first : Appended since before after)
    (second : Appended since after later) : Appended since before later :=
  ⟨second.initialCash.trans first.initialCash, second.splits.trans first.splits,
    second.settlements.trans first.settlements, first.dividends.trans second.dividends,
    first.cashEvents.trans second.cashEvents, first.fills.trans second.fills⟩

theorem mono {earlier : Int} (appended : Appended since before after) (sooner : earlier ≤ since) :
    Appended earlier before after := by
  refine ⟨appended.initialCash, appended.splits, appended.settlements,
    appended.dividends.mono fun _ _ dated => sooner.trans dated,
    appended.cashEvents.mono fun _ _ dated => sooner.trans dated, appended.fills.mono ?_⟩
  rintro _ row ⟨instant, stamped, dated⟩
  exact ⟨instant, stamped, sooner.trans dated⟩

/-- The rows before the day are the same list. -/
theorem rows (zone : Zone) (appended : Appended since before after) :
    after.rows.filter (Event.within zone .account none (some (since - 1))) =
      before.rows.filter (Event.within zone .account none (some (since - 1))) := by
  have late : ∀ event : Event, since ≤ event.date zone .account →
      event.within zone .account none (some (since - 1)) = false := by
    intro event dated
    simp only [Event.within, Option.all_none, Bool.true_and, Option.all_some, decide_eq_false_iff_not]
    omega
  unfold LedgerTables.rows
  simp only [List.filter_append, appended.splits, appended.settlements]
  rw [appended.dividends.filter_map, appended.cashEvents.filter_map,
    appended.fills.filter_map]
  · rintro ⟨orderId, row⟩ ⟨instant, stamped, dated⟩
    apply late
    dsimp only at stamped
    simpa [Event.date, Event.stamp, stamped] using dated
  · rintro ⟨key, row⟩ dated
    apply late
    rw [Event.date_cash]
    exact dated
  · rintro ⟨key, row⟩ dated
    apply late
    simpa [Event.date, Event.stamp] using dated

/-- New fills are timed, so the same one is untimed. -/
theorem untimed (appended : Appended since before after) :
    after.untimed .account = before.untimed .account := by
  obtain ⟨new, entries, dated⟩ := appended.fills
  have timed : new.find? (fun row => decide (Engine.account = .account) && row.2.fillTs.isNone) =
      none := by
    rw [List.find?_eq_none]
    intro row member
    obtain ⟨instant, stamped, _⟩ := dated row member
    simp [stamped]
  unfold LedgerTables.untimed
  rw [entries, List.find?_append, timed, Option.none_or]

/-- Replay through the day before is the same. -/
theorem rebuildState_eq (zone : Zone) {settings : LedgerSettings}
    (account : settings.engine = .account) (appended : Appended since before after) :
    rebuildState zone settings after (some (since - 1)) =
      rebuildState zone settings before (some (since - 1)) := by
  have sequences : events zone settings.engine after none (some (since - 1)) =
      events zone settings.engine before none (some (since - 1)) := by
    have rows := appended.rows zone
    unfold Event.within at rows
    unfold events
    rw [account, appended.untimed, rows]
  unfold rebuildState
  rw [sequences, appended.initialCash]
  split
  · rfl
  · rename_i sequence listed
    -- old fills keep their times, and only old fills are replayed
    have agree : ∀ orderId, (before.fills.lookup orderId).isSome = true →
        after.times orderId = before.times orderId := by
      intro orderId stored
      obtain ⟨row, found⟩ := Option.isSome_iff_exists.mp stored
      simp [LedgerTables.times, found, appended.fills.kept found]
    refine replay_congr agree (opening_rooted _ _) ?_
    intro orderId row member
    have recorded := ((mem_events listed).mp member).1
    simp [fill_mem_rows.mp recorded]

end Appended

end TradingEngine.Ledger
