import TradingEngine.FoldWrites

/-!
# Dividends converge

A dividend is recorded once, for the holding that the first fold saw. When history
changes, later folds repay the difference by signed corrections. Whatever happened
in between, after a fold the recorded amount and its corrections add up to the
holding of the day before the ex-date times the dividend, within the tolerance below
which no correction is written.
-/

namespace TradingEngine.Accounts

open KeyedTables OrderTypes Nyse Ledger Costs Fills Runs

variable {zone : Zone}

/-- What the ledger paid for an ex-date, corrections included. -/
def paidEntitlement (ledger : LedgerTables) (ticker : Ticker) (ex : Int) : ℚ :=
  ((ledger.dividends.lookup (ticker, ex)).map DividendRow.amount).getD 0 +
    recordedCorrection ledger ticker ex

/-- Every correction belongs to a recorded dividend. -/
def Backed (ledger : LedgerTables) : Prop :=
  ∀ key row, ledger.cashEvents.lookup key = some row → row.corrects = true →
    ∀ ticker, row.instrumentId = some ticker → (ledger.dividends.lookup (ticker, key.1)).isSome = true

theorem Backed.uncorrected {ledger : LedgerTables} (backed : Backed ledger) {ticker : Ticker}
    {ex : Int} (unpaid : ledger.dividends.lookup (ticker, ex) = none) :
    recordedCorrection ledger ticker ex = 0 := by
  unfold recordedCorrection total
  refine List.sum_eq_zero ?_
  intro amount listed
  obtain ⟨entry, member, rfl⟩ := List.mem_map.mp listed
  dsimp only
  split
  · rename_i hit
    have recorded := backed entry.1 entry.2 (lookup_of_mem member) hit.2.2 ticker hit.2.1
    rw [hit.1, unpaid] at recorded
    cases recorded
  · rfl

/-- Writes that concern no dividend. -/
structure Neutral (before after : LedgerTables) : Prop where
  dividends : after.dividends = before.dividends
  cashEvents : Grown (fun _ row => row.corrects = false) before.cashEvents after.cashEvents

namespace Neutral

variable {before after : LedgerTables}

theorem refl (ledger : LedgerTables) : Neutral ledger ledger := ⟨rfl, .refl _⟩

theorem trans {later : LedgerTables} (first : Neutral before after)
    (second : Neutral after later) : Neutral before later :=
  ⟨second.dividends.trans first.dividends, first.cashEvents.trans second.cashEvents⟩

theorem paid (neutral : Neutral before after) (ticker : Ticker) (ex : Int) :
    paidEntitlement after ticker ex = paidEntitlement before ticker ex := by
  unfold paidEntitlement recordedCorrection
  rw [neutral.dividends, neutral.cashEvents.total]
  intro key row plain
  simp [plain]

theorem backed (neutral : Neutral before after) (holds : Backed before) : Backed after := by
  intro key row found corrects ticker instrument
  rw [neutral.dividends]
  refine holds key row ?_ corrects ticker instrument
  obtain ⟨new, entries, plain⟩ := neutral.cashEvents
  have listed := mem_of_lookup found
  rw [entries] at listed
  rcases List.mem_append.mp listed with fresh | old
  · simp [plain _ fresh] at corrects
  · exact lookup_of_mem old

end Neutral

theorem applyCashEvent_neutral {account : Account} {day : Int} {row : CashRow}
    (plain : row.kind ≠ .adjustment) :
    Neutral account.ledger (applyCashEvent account day row).ledger :=
  ⟨rfl, .insert (nextCashSeq_missing _ _) (by simp [CashRow.corrects, plain])⟩

theorem postAccrual_neutral {account : Account} {day : Int} {row : CashRow}
    (plain : row.kind ≠ .adjustment) :
    Neutral account.ledger (postAccrual account day row).ledger := by
  unfold postAccrual
  dsimp only
  split
  · exact .refl _
  · exact applyCashEvent_neutral plain

/-- Only the dividends of a session write dividends and their corrections. -/
theorem applyItem_neutral {world : World zone} {session : Session} {account next : Account}
    {item : Item} (other : item ≠ .dividends)
    (applied : applyItem world session account item = .ok next) :
    Neutral account.ledger next.ledger := by
  cases item with
  | recorded event =>
    obtain ⟨book, _, applied⟩ := bind_ok.mp applied
    cases applied
    exact .refl _
  | interest =>
    cases applied
    unfold accrueInterest
    split
    · exact postAccrual_neutral (by simp)
    · exact .refl _
  | dividends => exact absurd rfl other
  | borrow =>
    simp only [applyItem, accrueBorrow] at applied
    split at applied
    · refine foldlM_invariant (fun state => Neutral account.ledger state.ledger) ?_ (.refl _) applied
      intro row _ state after neutral charged
      obtain ⟨close, _, charged⟩ := bind_ok.mp charged
      cases charged
      exact neutral.trans (postAccrual_neutral (by simp))
    · cases applied
      exact .refl _
  | execute row result =>
    obtain ⟨outcome, settled, rfl⟩ := map_ok.mp applied
    have penalty : ∀ (state : Account) row, Neutral state.ledger
        (recordPenalty world session state row).ledger := by
      intro state row
      unfold recordPenalty
      split
      · exact applyCashEvent_neutral (by simp)
      · exact .refl _
    cases settleOrder_settlement settled with
    | stopped => exact .refl _
    | waited => exact .refl _
    | unfilled => exact .refl _
    | lapsed => exact .refl _
    | refused => simpa [Account.setState] using Neutral.refl _
    | vanished =>
      refine Neutral.trans ?_ (penalty _ _)
      simpa [Account.setState] using Neutral.refl _
    | executed qty terms flagged _ _ execution =>
      refine Neutral.trans ?_ (penalty _ _)
      simp only [Account.setState, Execution.booked, recordFill, afterPdt_ledger]
      exact ⟨rfl, .refl _⟩

theorem applyCashEvent_correction (account : Account) (day ex : Int) (row : CashRow)
    (ticker : Ticker) :
    recordedCorrection (applyCashEvent account day row).ledger ticker ex =
      (if day = ex ∧ row.instrumentId = some ticker ∧ row.corrects = true then row.amount else 0) +
        recordedCorrection account.ledger ticker ex :=
  total_insert_new _ row (nextCashSeq_missing _ _)

/-- A credit settles its own dividend within the tolerance. -/
theorem creditDividend_settles {day : Int} {account : Account} {ticker : Ticker} {dps qty : ℚ}
    (backed : Backed account.ledger) :
    |paidEntitlement (creditDividend zone day account (ticker, dps, qty)).ledger ticker day -
      qty * dps| ≤ 1 / 10 ^ 10 := by
  unfold creditDividend
  dsimp only
  split
  · rename_i unpaid
    have uncorrected := backed.uncorrected unpaid
    split
    · rename_i nothing
      simp [paidEntitlement, unpaid, uncorrected, nothing]
    · have same : recordedCorrection { account.ledger with
          dividends := account.ledger.dividends.insert (ticker, day) ⟨qty, dps, qty * dps⟩ }
          ticker day = 0 := uncorrected
      simp [paidEntitlement, same]
  · rename_i old paid
    split
    · unfold paidEntitlement
      rw [applyCashEvent_correction]
      simp [applyCashEvent, paid, CashRow.corrects]
    · rename_i close
      simp only [paidEntitlement, paid, Option.map_some, Option.getD_some]
      rw [abs_sub_comm, sub_add_eq_sub_sub]
      exact not_lt.mp close

/-- A credit leaves other instruments and other days alone. -/
theorem creditDividend_other {day ex : Int} {account : Account} {payment : Ticker × ℚ × ℚ}
    {ticker : Ticker} (apart : payment.1 ≠ ticker ∨ day ≠ ex) :
    paidEntitlement (creditDividend zone day account payment).ledger ticker ex =
      paidEntitlement account.ledger ticker ex := by
  have different : (ticker, ex) ≠ (payment.1, day) := by
    rintro ⟨⟩
    simp at apart
  unfold creditDividend
  dsimp only
  split
  · split
    · rfl
    · simp only [paidEntitlement, recordedCorrection]
      rw [AList.lookup_insert_ne different]
  · split
    · unfold paidEntitlement
      rw [applyCashEvent_correction, if_neg, zero_add]
      · rfl
      · rintro ⟨sameDay, instrument, _⟩
        cases instrument
        simp [sameDay] at apart
    · rfl

theorem creditDividend_backed {day : Int} {account : Account} {payment : Ticker × ℚ × ℚ}
    (backed : Backed account.ledger) :
    Backed (creditDividend zone day account payment).ledger := by
  unfold creditDividend
  dsimp only
  split
  · split
    · exact backed
    · intro key row found corrects ticker instrument
      have recorded := backed key row found corrects ticker instrument
      by_cases same : (ticker, key.1) = (payment.1, day)
      · rw [same] at recorded ⊢
        simp
      · simpa [AList.lookup_insert_ne same] using recorded
  · rename_i old paid
    split
    · intro key row found corrects ticker instrument
      by_cases same : key = (day, nextCashSeq account.ledger.cashEvents day)
      · subst same
        simp only [applyCashEvent, AList.lookup_insert, Option.some.injEq] at found
        subst found
        cases instrument
        simp [applyCashEvent, paid]
      · simp only [applyCashEvent, AList.lookup_insert_ne same] at found
        exact backed key row found corrects ticker instrument
    · exact backed

/-- Credits of distinct instruments settle each of their dividends. -/
theorem creditDividends_settle {day : Int} {payments : List (Ticker × ℚ × ℚ)} {account : Account}
    (distinct : payments.Pairwise fun a b => a.1 ≠ b.1) (backed : Backed account.ledger) :
    ∀ payment ∈ payments,
      |paidEntitlement (payments.foldl (creditDividend zone day) account).ledger payment.1 day -
        payment.2.2 * payment.2.1| ≤ 1 / 10 ^ 10 := by
  induction payments generalizing account with
  | nil => simp
  | cons first rest ih =>
    obtain ⟨apart, distinct⟩ := List.pairwise_cons.mp distinct
    intro payment member
    rw [List.foldl_cons]
    rcases List.mem_cons.mp member with rfl | later
    · have kept : paidEntitlement (rest.foldl (creditDividend zone day)
          (creditDividend zone day account payment)).ledger payment.1 day =
          paidEntitlement (creditDividend zone day account payment).ledger payment.1 day := by
        refine foldl_invariant (fun state : Account => paidEntitlement state.ledger payment.1 day =
          paidEntitlement (creditDividend zone day account payment).ledger payment.1 day) ?_ rfl
        intro other listed state same
        rw [creditDividend_other (.inl (apart other listed).symm), same]
      rw [kept]
      exact creditDividend_settles backed
    · exact ih distinct (creditDividend_backed backed) payment later

theorem dividendsOf_distinct (world : World zone) (day : Int) :
    (dividendsOf world day).Pairwise fun a b => a.1 ≠ b.1 := by
  unfold dividendsOf
  rw [List.pairwise_map]
  have keys : world.market.dividends.entries.Pairwise fun a b => a.1 ≠ b.1 := by
    have nodup := world.market.dividends.nodupKeys
    rwa [List.NodupKeys, List.keys, List.Nodup, List.pairwise_map] at nodup
  refine List.Pairwise.imp_of_mem ?_ (keys.filter _)
  intro a b first second different same
  rw [List.mem_filter] at first second
  simp only [Bool.and_eq_true, decide_eq_true_eq] at first second
  exact different (Prod.ext same (first.2.1.trans second.2.1.symm))

/-- The dividends of a session settle its ex-date and leave other dates alone. -/
theorem creditDividends_spec {world : World zone} {account next : Account} {day : Int}
    (backed : Backed account.ledger) (credited : creditDividends world account day = .ok next) :
    Backed next.ledger ∧
      (∀ ticker ex, day ≠ ex →
        paidEntitlement next.ledger ticker ex = paidEntitlement account.ledger ticker ex) ∧
      ∀ declared ∈ dividendsOf world day, ∃ holding,
        rebuildState zone account.ledgerSettings account.ledger (some (day - 1)) = .ok holding ∧
        |paidEntitlement next.ledger declared.1 day -
          (holding.position declared.1).qty * declared.2| ≤ 1 / 10 ^ 10 := by
  unfold creditDividends at credited
  dsimp only at credited
  split at credited
  · rename_i nothing
    cases credited
    exact ⟨backed, fun _ _ _ => rfl, by simp [nothing]⟩
  · split at credited
    · cases credited
    · obtain ⟨holding, rebuilt, credited⟩ := bind_ok.mp credited
      cases credited
      refine ⟨?_, ?_, ?_⟩
      · exact foldl_invariant (fun state : Account => Backed state.ledger)
          (fun _ _ _ holds => creditDividend_backed holds) backed
      · intro ticker ex apart
        refine foldl_invariant (fun state : Account => paidEntitlement state.ledger ticker ex =
          paidEntitlement account.ledger ticker ex) ?_ rfl
        intro payment _ state same
        rw [creditDividend_other (.inr apart), same]
      · intro declared listed
        refine ⟨holding, ofLedger_ok.mp rebuilt, ?_⟩
        refine creditDividends_settle ?_ backed
          (declared.1, declared.2, (holding.position declared.1).qty) (List.mem_map_of_mem listed)
        rw [List.pairwise_map]
        exact dividendsOf_distinct world day

/-- Every entry of a fold keeps corrections backed. -/
theorem applyItem_backed {world : World zone} {session : Session} {account next : Account}
    {item : Item} (backed : Backed account.ledger)
    (applied : applyItem world session account item = .ok next) : Backed next.ledger := by
  by_cases dividends : item = .dividends
  · subst dividends
    exact (creditDividends_spec backed applied).1
  · exact (applyItem_neutral dividends applied).backed backed

/-- What a fold paid for an ex-date is what the ledger says was held. -/
structure Converged (world : World zone) (settings : LedgerSettings) (ex : Int)
    (account : Account) : Prop where
  backed : Backed account.ledger
  settled : ∀ declared ∈ dividendsOf world ex, ∃ holding,
    rebuildState zone settings account.ledger (some (ex - 1)) = .ok holding ∧
    |paidEntitlement account.ledger declared.1 ex -
      (holding.position declared.1).qty * declared.2| ≤ 1 / 10 ^ 10

theorem dividends_converged {world : World zone} {account next : Account} {stop : Int}
    {turn : Turn} (member : turn ∈ foldTurns world account stop) (item : turn.item = .dividends)
    (settings : turn.account.ledgerSettings = account.ledgerSettings)
    (backed : Backed turn.account.ledger)
    (applied : applyItem world turn.session turn.account turn.item = .ok next) :
    Converged world account.ledgerSettings turn.session.day next := by
  have history := (applyItem_appended member applied).rebuildState_eq zone
    (rfl : account.ledgerSettings.engine = .account)
  rw [item] at applied
  obtain ⟨kept, _, settled⟩ := creditDividends_spec backed applied
  refine ⟨kept, ?_⟩
  intro declared listed
  obtain ⟨holding, rebuilt, close⟩ := settled declared listed
  exact ⟨holding, by rw [history, ← settings]; exact rebuilt, close⟩

/-- Entries from the ex-date on keep a settled dividend settled. -/
theorem applyItem_converged {world : World zone} {account next : Account} {stop ex : Int}
    {turn : Turn} (member : turn ∈ foldTurns world account stop) (later : ex ≤ turn.session.day)
    (settings : turn.account.ledgerSettings = account.ledgerSettings)
    (converged : Converged world account.ledgerSettings ex turn.account)
    (applied : applyItem world turn.session turn.account turn.item = .ok next) :
    Converged world account.ledgerSettings ex next := by
  by_cases own : turn.item = .dividends ∧ turn.session.day = ex
  · obtain ⟨item, rfl⟩ := own
    exact dividends_converged member item settings converged.backed applied
  · have history := ((applyItem_appended member applied).mono later).rebuildState_eq zone
      (rfl : account.ledgerSettings.engine = .account)
    refine ⟨applyItem_backed converged.backed applied, ?_⟩
    intro declared listed
    obtain ⟨holding, rebuilt, settled⟩ := converged.settled declared listed
    refine ⟨holding, by rw [history]; exact rebuilt, ?_⟩
    by_cases dividends : turn.item = .dividends
    · rw [dividends] at applied
      have apart : turn.session.day ≠ ex := fun same => own ⟨dividends, same⟩
      rw [(creditDividends_spec converged.backed applied).2.1 _ _ apart]
      exact settled
    · rw [(applyItem_neutral dividends applied).paid]
      exact settled

section Folds

variable {world : World zone} {account final : Account} {stop : Int}

theorem foldTurns_settings : ∀ turn ∈ foldTurns world account stop,
    turn.account.ledgerSettings = account.ledgerSettings := by
  intro turn member
  have same := foldTurns_administration turn member
  unfold Account.ledgerSettings
  rw [show turn.account.settings = account.settings from congrArg Administration.settings same]

theorem markAccount_ledger {state next : Account} {day : Int}
    (marked : markAccount world state day = .ok next) : next.ledger = state.ledger := by
  obtain ⟨row, prices, rfl⟩ := markAccount_ok marked
  rfl

theorem openFold_backed {opened : Account} {plan : FoldPlan} (backed : Backed account.ledger)
    (done : openFold world account stop = .ok (opened, plan)) : Backed opened.ledger := by
  obtain ⟨_, _, _, _, rfl, _⟩ := openFold_ok done
  exact backed

theorem foldTurns_backed (backed : Backed account.ledger) :
    ∀ turn ∈ foldTurns world account stop, Backed turn.account.ledger := by
  intro turn member
  refine (foldTurns_invariant (fun state => Backed state.ledger) ?_ ?_ ?_ turn member).2
  · intro opened plan done
    exact openFold_backed backed done
  · intro turn _ next _ holds applied
    exact applyItem_backed holds applied
  · intro state day next holds marked
    exact (markAccount_ledger marked).symm ▸ holds

theorem foldLoop_backed (backed : Backed account.ledger)
    (completed : foldLoop world account stop = .ok final) : Backed final.ledger := by
  refine foldLoop_invariant (fun state => Backed state.ledger) ?_ ?_ ?_ completed
  · intro opened plan done
    exact openFold_backed backed done
  · intro turn _ next _ holds applied
    exact applyItem_backed holds applied
  · intro state day next holds marked
    exact (markAccount_ledger marked).symm ▸ holds

/-- A fold settles the dividends of every session that it covers. -/
theorem foldLoop_covered {ex : Int} {opened : Account} {plan : FoldPlan}
    (backed : Backed account.ledger) (completed : foldLoop world account stop = .ok final)
    (done : openFold world account stop = .ok (opened, plan))
    (window : plan.start ≤ ex ∧ ex ≤ plan.stop) (session : isSession ex = true) :
    Converged world account.ledgerSettings ex final := by
  obtain ⟨begun, sequence, _, _, turns⟩ := foldTurns_covers completed done window session
  obtain ⟨state, member, _⟩ := turns .dividends (by simp [sessionItems])
  obtain ⟨next, applied, lasts⟩ := foldTurns_onward
    (fun state => Converged world account.ledgerSettings ex state) completed _ member
    (fun state day next _ holds marked => by
      have ledger := markAccount_ledger marked
      exact ⟨ledger ▸ holds.backed, ledger ▸ holds.settled⟩)
    (fun later listed after next holds applied =>
      applyItem_converged listed after (foldTurns_settings later listed) holds applied)
  exact lasts (dividends_converged member rfl (foldTurns_settings _ member)
    (foldTurns_backed backed _ member) applied)

/-- Before its window a fold leaves nothing to be paid. -/
theorem foldLoop_uncovered {ex : Int} {opened : Account} {plan : FoldPlan}
    (backed : Backed account.ledger) (completed : foldLoop world account stop = .ok final)
    (done : openFold world account stop = .ok (opened, plan)) (before : ex < plan.start) :
    Converged world account.ledgerSettings ex final := by
  have appended := foldLoop_appended done completed
  refine ⟨foldLoop_backed backed completed, ?_⟩
  intro declared _
  have unpaid : final.ledger.dividends.lookup (declared.1, ex) = none := by
    rw [appended.dividends.lookup (by simp [before])]
    obtain ⟨_, _, _, _, rfl, _⟩ := openFold_ok done
    by_contra paid
    obtain ⟨row, recorded⟩ := Option.ne_none_iff_exists'.mp paid
    have listed : Event.dividend declared.1 ex row ∈
        (captureSplits world account plan.stop).ledger.rows := by
      unfold LedgerTables.rows
      simp only [List.mem_append, List.mem_map]
      exact .inl (.inl (.inl (.inr ⟨⟨(declared.1, ex), row⟩, mem_of_lookup recorded, rfl⟩)))
    obtain ⟨_, _, _, isSplit⟩ := split_of_before done listed (by
      simpa [Event.date, Event.stamp] using before)
    cases isSplit
  refine ⟨.opening account.ledger.initialCash, ?_, ?_⟩
  · rw [(appended.mono before.le).rebuildState_eq zone rfl]
    exact openFold_before done (by omega)
  · simp [paidEntitlement, unpaid, (foldLoop_backed backed completed).uncorrected unpaid,
      Book.position, Book.opening]

theorem foldLoop_converged {ex : Int} (backed : Backed account.ledger)
    (completed : foldLoop world account stop = .ok final) (session : isSession ex = true)
    (reached : ex ≤ stop) : Converged world account.ledgerSettings ex final := by
  obtain ⟨opened, plan, done, _⟩ := foldLoop_ok completed
  obtain ⟨_, last⟩ := openFold_window done
  by_cases window : plan.start ≤ ex
  · exact foldLoop_covered backed completed done ⟨window, reached.trans last⟩ session
  · exact foldLoop_uncovered backed completed done (not_le.mp window)

end Folds

/-- A fold keeps corrections backed and settles the dividends through its day. -/
theorem foldAccount_converged {account folded : Account} {operation : Operation zone}
    {world : World zone} {stop : Int} {mutation : Account → Except AccountError Account}
    (call : FoldCall account operation world stop mutation) (backed : Backed account.ledger)
    (done : foldAccount world account stop mutation = .ok folded) :
    Backed folded.ledger ∧ ∀ ex, isSession ex = true → ex ≤ stop →
      ∀ declared ∈ dividendsOf world ex, ∃ holding,
        rebuildState zone account.ledgerSettings folded.ledger (some (ex - 1)) = .ok holding ∧
        |paidEntitlement folded.ledger declared.1 ex -
          (holding.position declared.1).qty * declared.2| ≤ 1 / 10 ^ 10 := by
  obtain ⟨_, _, done⟩ := bind_ok.mp done
  obtain ⟨changed, mutated, done⟩ := bind_ok.mp done
  obtain ⟨looped, loop, finished⟩ := bind_ok.mp done
  obtain ⟨_, tables, administration, _⟩ := call.mutates mutated
  have initially : Backed changed.ledger := by
    rw [tables]
    exact backed
  have settings : changed.ledgerSettings = account.ledgerSettings := by
    unfold Account.ledgerSettings
    rw [show changed.settings = account.settings from congrArg Administration.settings administration]
  have ledger : folded.ledger = looped.ledger := congrArg Prod.snd (finishFold_supervised finished).books
  rw [ledger, ← settings]
  exact ⟨foldLoop_backed initially loop, fun ex session reached =>
    (foldLoop_converged initially loop session reached).settled⟩

/-- Every call keeps corrections backed. -/
theorem step_backed {account : Account} (backed : Backed account.ledger)
    (operation : Operation zone) : Backed (step account operation).ledger := by
  rcases step_folds account operation with same | ⟨world, stop, mutation, folded, call, done, books, _⟩
  · have ledger : (step account operation).ledger = account.ledger := congrArg Prod.snd same
    rwa [ledger]
  · have ledger : (step account operation).ledger = folded.ledger := congrArg Prod.snd books
    rw [ledger]
    exact (foldAccount_converged call backed done).1

/-- Whatever ran before, after a fold every dividend with a session as ex-date has been paid,
corrections included, for the quantity that the ledger says was held at the close before,
within the tolerance. -/
theorem dividends_converge {spec : Spec} {capital : ℚ} {source : PriceSource}
    {rule : DayTradeRule} {allowShort : Bool} {now : Int} {account reached folded : Account}
    (created : createAccount zone spec capital source rule allowShort now = .ok account)
    (operations : List (Operation zone)) (run : reached = operations.foldl step account)
    {operation : Operation zone} {world : World zone} {stop : Int}
    {mutation : Account → Except AccountError Account}
    (call : FoldCall reached operation world stop mutation)
    (done : foldAccount world reached stop mutation = .ok folded) (ex : Int)
    (session : isSession ex = true) (past : ex ≤ stop) :
    ∀ declared ∈ dividendsOf world ex, ∃ holding,
      rebuildState zone reached.ledgerSettings folded.ledger (some (ex - 1)) = .ok holding ∧
      |paidEntitlement folded.ledger declared.1 ex -
        (holding.position declared.1).qty * declared.2| ≤ 1 / 10 ^ 10 := by
  have backed : Backed reached.ledger := by
    rw [run]
    refine foldl_invariant (fun state : Account => Backed state.ledger) ?_ ?_
    · intro operation _ state holds
      exact step_backed holds operation
    · rw [createAccount_ok created]
      intro key row found
      simp [newAccount] at found
  exact (foldAccount_converged call backed done).2 ex session past

/-- A steady world in which one name pays half a dollar on Wednesday. -/
def payingWorld (day hours : Int) : World daylightTime :=
  { sampleWorld day hours with
    market := { (steadyMarket 10 ten_positive : Market daylightTime) with
      dividends := tableOf [(("SYM", 739770), ⟨1 / 2, none⟩)] } }

/-- A holding bought on Tuesday, before the ex-date. -/
def boughtBeforeDividend : List (Operation daylightTime) :=
  [.submit (payingWorld 739768 22) (sampleIntent "entry" "SYM" .buy 100 739768),
    .settle (payingWorld 739769 22) 739769]

theorem bought_dividend_converges :
    ∃ folded, foldAccount (payingWorld 739770 22) (boughtBeforeDividend.foldl step sampleAccount)
        739770 (closeOutDelisted (payingWorld 739770 22) 739770) = .ok folded ∧
      ∃ holding, rebuildState daylightTime
          (boughtBeforeDividend.foldl step sampleAccount).ledgerSettings folded.ledger
          (some (739770 - 1)) = .ok holding ∧
        |paidEntitlement folded.ledger "SYM" 739770 - (holding.position "SYM").qty * (1 / 2)| ≤
          1 / 10 ^ 10 := by
  obtain ⟨folded, done⟩ := exists_ok (show (foldAccount (payingWorld 739770 22)
      (boughtBeforeDividend.foldl step sampleAccount) 739770
      (closeOutDelisted (payingWorld 739770 22) 739770)).isOk = true by decide +kernel)
  exact ⟨folded, done, dividends_converge sampleAccount_created boughtBeforeDividend rfl
    (.settle _ _) done 739770 (by decide +kernel) le_rfl ("SYM", 1 / 2) (by decide +kernel)⟩

end TradingEngine.Accounts
