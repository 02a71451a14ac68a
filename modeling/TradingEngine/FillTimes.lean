import TradingEngine.BarReaders
import TradingEngine.ContingentOrders

/-!
# When an order fills

An order fills after it was received: an auction and a next open checks or keeps its arrival
window, an intraday order waits for a minute that starts after it. A cancellation is accepted
up to an instant that no fill precedes. An attempt reads the bars of its session and earlier
ones only.
-/

namespace TradingEngine.Accounts

open KeyedTables OrderTypes Nyse Ledger Costs Fills Runs BarSources

variable {zone : Zone}

/-- Orders for the next open were received before it. -/
def NextOpensTimely (zone : Zone) (orders : Table OrderId Order) : Prop :=
  ∀ id order, orders.lookup id = some order → ∀ terms, order.terms = some terms →
    terms.orderType = .nextOpen → terms.receivedAt < opened zone (nextSession terms.signalDate)

theorem closed_lt_opened (first second : Zone) {day later : Int} (after : day < later) :
    closed first day < opened second later := by
  have ahead := first.offset_high day
  have behind := second.offset_low later
  have hours := closeHour_cases day
  unfold closed opened dayLength hour minute
  omega

theorem nextOpensTimely_lawful (zone : Zone) :
    OrderLaw false false (NextOpensTimely zone) := by
  refine .everyRow ?_ ?_
  · intro order next write timely terms known
    rw [write.terms] at known
    exact timely terms known
  · intro order new terms known waits
    cases new with
    | forced ticker side qty orderType unlimited sessionDate receivedAt reason closing forces
        auction received =>
      rw [forcedOrder_terms, Option.some.injEq] at known
      subst known
      obtain ⟨stamped, rfl⟩ := received waits
      exact closed_lt_opened stamped zone (nextSession_later _)
    | entered intent parent now limited session accepting => cases accepting

variable {world : World zone} {account : Account}

/-- Intake admits an order for the next open before that open. -/
theorem submit_nextOpensTimely {intent : Intent}
    (timely : NextOpensTimely zone account.orders) :
    NextOpensTimely zone (submit world account intent).orders := by
  unfold submit
  split
  · rename_i accepted receipt submitted
    rcases submitIntent_ok submitted with ⟨rfl, _⟩ | ⟨valid, parent, _, _, _, rfl⟩
    · exact timely
    · intro id order present terms known waits
      by_cases same : id = nextOrderId world.orderSequence account.orders
      · subst same
        rw [AList.lookup_insert, Option.some.injEq] at present
        subst present
        simp only [intentOrder, Order.terms, Option.map_some, Option.some.injEq] at known
        subst known
        simp only [validIntent, Bool.and_eq_true] at valid
        obtain ⟨⟨⟨-, allowed⟩, -⟩, -⟩ := valid
        unfold receivedAtAllowed at allowed
        rw [show intent.orderType = .nextOpen from waits] at allowed
        simp only [Bool.and_eq_true, decide_eq_true_eq] at allowed
        exact allowed.2.2
      · rw [AList.lookup_insert_ne same] at present
        exact timely id order present terms known waits
  · exact timely

theorem step_nextOpensTimely (operation : Operation zone)
    (timely : NextOpensTimely zone account.orders) :
    NextOpensTimely zone (step account operation).orders := by
  by_cases submits : ∃ world intent, operation = .submit world intent
  · obtain ⟨world, intent, rfl⟩ := submits
    exact submit_nextOpensTimely timely
  · exact step_orders (nextOpensTimely_lawful zone) timely
      (fun world intent same => absurd ⟨world, intent, same⟩ submits) (by simp) (by simp)

theorem step_dated (operation : Operation zone)
    (dated : Dated account.orders) : Dated (step account operation).orders :=
  step_orders (dated_lawful true) dated (fun _ _ _ => rfl) (by simp) (by simp)

theorem attemptAuctionFill_received {market : Market zone} {source : PriceSource}
    {profile : ExecutionProfile} {row : PendingRow} {opening : Bool} {day now : Int} {penalty : ℚ}
    {terms : FillTerms}
    (filled : attemptAuctionFill market source profile row opening day now penalty =
      .filled terms) : receivedAtAllowed zone row.orderType day row.receivedAt = true := by
  unfold attemptAuctionFill at filled
  split at filled
  · cases filled
  · split at filled
    · cases filled
    · rename_i allowed
      simpa using allowed

/-- A limit order that fills does so after the open of its session. -/
theorem attemptIntradayLimitFill_opened {market : Market zone} {source : PriceSource}
    {profile : ExecutionProfile} {row : PendingRow} {limitPx : ℚ} {day now : Int}
    {terms : FillTerms}
    (filled : attemptIntradayLimitFill market source profile row limitPx day now =
      .filled terms) : opened zone day < terms.fillTs := by
  unfold attemptIntradayLimitFill at filled
  split at filled
  · cases filled
  · split at filled
    · cases filled
    · split at filled
      · cases filled
      · dsimp only at filled
        have missing : missingIntradayResult day now ≠ .filled terms := by
          unfold missingIntradayResult
          split <;> nofun
        split at filled
        · split at filled
          · cases filled
          · exact absurd filled missing
        · split at filled
          · split at filled
            · cases filled
            · exact absurd filled missing
          · rename_i bar touched
            have listed := List.mem_of_mem_filter (List.mem_of_find?_eq_some touched)
            obtain ⟨after, -⟩ := market.minutes_within _ _ _ _ bar listed
            rw [(v2Result_filled filled).2.2.2.1]
            unfold minute
            omega

/-- The attempts that can fill an order, by its type. -/
theorem fillAttempt_kinds {row : PendingRow} {day : Int}
    {terms : FillTerms} (filled : fillAttempt world account row day = .filled terms) :
    (row.orderType = .nextOpen) ∨
      ((row.orderType = .moo ∨ row.orderType = .moc) ∧
        receivedAtAllowed zone row.orderType day row.receivedAt = true) ∨
      (row.orderType = .market) ∨
      (row.orderType = .limit ∧ opened zone day < terms.fillTs) := by
  unfold fillAttempt at filled
  dsimp only at filled
  split at filled
  · cases filled
  · split at filled
    · rename_i type
      exact .inl type
    · rename_i type
      exact .inr (.inl ⟨.inl type, attemptAuctionFill_received filled⟩)
    · rename_i type
      exact .inr (.inl ⟨.inr type, attemptAuctionFill_received filled⟩)
    · rename_i type
      exact .inr (.inr (.inl type))
    · rename_i type
      exact .inr (.inr (.inr ⟨type, attemptIntradayLimitFill_opened filled⟩))
    · cases filled

/-- A due order that fills was received before the time of its fill. -/
theorem fillAttempt_after_receipt {row : PendingRow}
    {day : Int} {terms : FillTerms} (isDue : due row day = true)
    (timely : row.orderType = .nextOpen → row.receivedAt < opened zone (nextSession row.signalDate))
    (filled : fillAttempt world account row day = .filled terms) :
    row.receivedAt < terms.fillTs := by
  have earliest := fillAttempt_earliest rfl isDue filled
  unfold due at isDue
  unfold OrderTerms.earliest at earliest
  rcases fillAttempt_kinds filled with type | ⟨type | type, allowed⟩ | type | ⟨type, -⟩ <;>
    simp only [type, reduceCtorEq, if_true, if_false, decide_eq_true_eq] at isDue earliest timely
  · exact (timely trivial).trans_le earliest
  · simp only [receivedAtAllowed, type, Bool.and_eq_true, decide_eq_true_eq, mooCutoff] at allowed
    rw [isDue] at earliest
    have before : row.receivedAt ≤ opened zone day - 2 * minute := of_decide_eq_true allowed.2.2
    unfold minute at before
    omega
  · simp only [receivedAtAllowed, type, Bool.and_eq_true, decide_eq_true_eq, mocCutoff] at allowed
    rw [isDue] at earliest
    have before : row.receivedAt ≤ closed zone day - 10 * minute := of_decide_eq_true allowed.2.2
    unfold minute at before
    omega
  · unfold minute at earliest
    omega
  · unfold minute at earliest
    omega

theorem pendingRow_details {id : OrderId} {order : Order} {row : PendingRow}
    (pending : pendingRow id order = some row) :
    row.signalDate = order.signalDate ∧ ∃ details, order.details = some details ∧
      details.orderType = row.orderType ∧ details.receivedAt = row.receivedAt := by
  unfold pendingRow at pending
  split at pending
  · cases pending
  · rename_i details stored
    split at pending
    · cases pending
      exact ⟨rfl, details, stored, rfl, rfl⟩
    · cases pending

/-- No fill of a due order precedes an instant at which its cancellation is accepted. -/
theorem fillAttempt_after_cancel {id : OrderId}
    {order : Order} {row : PendingRow} {day : Int} {terms : FillTerms}
    (pending : pendingRow id order = some row) (dated : row.sessionDate = row.signalDate)
    (isDue : due row day = true) (withdrawing : World zone)
    (accepted : cancellable withdrawing order = true)
    (filled : fillAttempt world account (prepareOrder world row day) day = .filled terms) :
    withdrawing.now ≤ terms.fillTs := by
  have isPrepared : due (prepareOrder world row day) day = true := isDue
  have earliest := fillAttempt_earliest rfl isPrepared filled
  have kinds := fillAttempt_kinds filled
  have types : (prepareOrder world row day).orderType = row.orderType := rfl
  rw [types] at kinds
  obtain ⟨signal, details, stored, kind, received⟩ := pendingRow_details pending
  unfold cancellable at accepted
  simp only [Bool.and_eq_true, decide_eq_true_eq] at accepted
  refine accepted.2.trans ?_
  unfold cancelDeadline
  rw [stored]
  dsimp only
  rw [kind, received, ← signal]
  unfold due at isDue
  unfold OrderTerms.earliest at earliest
  dsimp only [prepareOrder] at earliest
  rcases kinds with type | ⟨type | type, -⟩ | type | ⟨type, opens⟩ <;>
    simp only [type, reduceCtorEq, if_true, if_false, decide_eq_true_eq] at isDue earliest ⊢
  · exact earliest
  · rw [dated] at earliest
    unfold mooCutoff minute
    omega
  · rw [dated] at earliest
    unfold mocCutoff minute
    omega
  · exact earliest
  · rw [← dated, isDue]
    refine max_le ?_ opens.le
    unfold minute at earliest
    omega

/-- An attempt reads no bar after its session. -/
theorem fillAttempt_through (history : History) (rest : Market zone) (world : World zone)
    (account : Account) (row : PendingRow) (day : Int) :
    fillAttempt { world with market := (history.through zone day).market rest } account row day =
      fillAttempt { world with market := history.market rest } account row day := by
  have daily : ∀ source ticker now,
      ((history.through zone day).market rest).dailyBar source ticker day now =
        (history.market rest).dailyBar source ticker day now :=
    fun source ticker now => History.dailyBar_through zone day source ticker now
  have minutes : ∀ source ticker now,
      ((history.through zone day).market rest).minuteBars source ticker day now =
        (history.market rest).minuteBars source ticker day now :=
    fun source ticker now => History.minuteBars_through zone day source ticker now
  have volume : ∀ source ticker now,
      ((history.through zone day).market rest).medianDollarVolume source ticker day now =
        (history.market rest).medianDollarVolume source ticker day now :=
    fun source ticker now => History.medianDollarVolume_through zone day source ticker now
  have priced : ∀ profile side qty reference volume friction kind fillTs,
      v2Result ((history.through zone day).market rest) profile side qty reference volume friction
        kind fillTs =
      v2Result (history.market rest) profile side qty reference volume friction kind fillTs :=
    fun _ _ _ _ _ _ _ _ => rfl
  have eligible : ∀ source now,
      eligibleMinutes ((history.through zone day).market rest) source row day now =
        eligibleMinutes (history.market rest) source row day now := by
    intro source now
    unfold eligibleMinutes
    rw [minutes]
  have complete : ∀ source ticker now,
      minuteSessionComplete ((history.through zone day).market rest) source ticker day now =
        minuteSessionComplete (history.market rest) source ticker day now := by
    intro source ticker now
    unfold minuteSessionComplete
    rw [minutes]
  unfold fillAttempt attemptNextOpenFill attemptAuctionFill attemptIntradayMarketFill
    attemptIntradayLimitFill
  simp only [daily, volume, priced, eligible, complete]

/-- The fills that an order can have: each is later than its receipt and not earlier than
any instant at which its cancellation is accepted, and it is found without the bars after
the order's session. -/
theorem fills_without_lookahead {spec : Spec} {capital : ℚ} {source : PriceSource}
    {rule : DayTradeRule} {allowShort : Bool} {now : Int} {account : Account}
    (created : createAccount zone spec capital source rule allowShort now = .ok account)
    (operations : List (Operation zone)) :
    ∀ reached ∈ states step account operations, ∀ id order row,
      reached.orders.lookup id = some order → pendingRow id order = some row →
      ∀ (world : World zone) (settled : Account) (day : Int), due row day = true →
        (∀ terms, fillAttempt world settled (prepareOrder world row day) day = .filled terms →
          row.receivedAt < terms.fillTs ∧
          ∀ withdrawing : World zone, cancellable withdrawing order = true →
            withdrawing.now ≤ terms.fillTs) ∧
        ∀ (history : History) (rest : Market zone),
          let seen := { world with market := history.market rest }
          let cut := { world with market := (history.through zone day).market rest }
          fillAttempt cut settled (prepareOrder cut row day) day =
            fillAttempt seen settled (prepareOrder seen row day) day := by
  have initially : NextOpensTimely zone account.orders ∧ Dated account.orders := by
    rw [createAccount_ok created]
    constructor
    · intro id order found
      simp [newAccount] at found
    · intro id order found
      simp [newAccount] at found
  have kept : ∀ reached ∈ states step account operations,
      NextOpensTimely zone reached.orders ∧ Dated reached.orders :=
    states_invariant (fun state : Account => NextOpensTimely zone state.orders ∧ Dated state.orders)
      (fun _ operation held => ⟨step_nextOpensTimely operation held.1, step_dated operation held.2⟩)
      initially operations
  intro reached member id order row present pending world settled day isDue
  obtain ⟨timely, dated⟩ := kept reached member
  have terms := pendingRow_terms pending
  refine ⟨fun priced filled => ⟨?_, fun withdrawing accepted => ?_⟩, fun history rest => ?_⟩
  · have isPrepared : due (prepareOrder world row day) day = true := isDue
    have received := fillAttempt_after_receipt isPrepared
      (fun waits => timely id order present _ terms waits) filled
    exact received
  · exact fillAttempt_after_cancel pending (dated id order present _ terms) isDue withdrawing
      accepted filled
  · exact fillAttempt_through history rest world settled _ day

/-- A buy at the next open after a session. -/
def nightlyBuy : Operation daylightTime :=
  .submit (sampleWorld 739770 21) (sampleIntent "entry" "SYM" .buy 10 739770)

/-- The order as settlement reads it. -/
def nightlyRow : PendingRow :=
  ⟨1, "SYM", .buy, 10, 739770, .nextOpen, true, none, 739770, 739770 * dayLength + 21 * hour,
    none, [], by nofun⟩

/-- Its fill at ten dollars with the costs of an unknown volume. -/
def nightlyFill : FillTerms :=
  ⟨1003 / 100, 10, none, opened daylightTime 739771, .nextOpen⟩

/-- It fills at that open, the last instant at which it may be withdrawn. -/
theorem nightlyBuy_in_time :
    ∃ order, (step sampleAccount nightlyBuy).orders.lookup 1 = some order ∧
      fillAttempt (sampleWorld 739771 22) sampleAccount
        (prepareOrder (sampleWorld 739771 22) nightlyRow 739771) 739771 = .filled nightlyFill ∧
      nightlyRow.receivedAt < nightlyFill.fillTs ∧
      ∀ withdrawing : World daylightTime, cancellable withdrawing order = true →
        withdrawing.now ≤ nightlyFill.fillTs := by
  have queued : ((step sampleAccount nightlyBuy).orders.lookup 1).bind (pendingRow 1) =
      some nightlyRow := by
    decide +kernel
  have filled : fillAttempt (sampleWorld 739771 22) sampleAccount
      (prepareOrder (sampleWorld 739771 22) nightlyRow 739771) 739771 = .filled nightlyFill := by
    decide +kernel
  obtain ⟨order, present, pending⟩ := Option.bind_eq_some_iff.mp queued
  have lawful := (fills_without_lookahead sampleAccount_created [nightlyBuy] _
    (by simp [states]) 1 order nightlyRow present pending (sampleWorld 739771 22) sampleAccount
    739771 (by decide +kernel)).1 nightlyFill filled
  exact ⟨order, present, filled, lawful.1, lawful.2⟩

end TradingEngine.Accounts
