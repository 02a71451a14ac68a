import TradingEngine.StoppedAccounts

/-!
# Loss limits and the settlement schedule

Risk checks run once for a fold, on the latest mark it leaves. A mark that breaks
the drawdown or the daily-loss limit there halts the account, and until it is
resumed no later fold fills an ordinary order, however the later sessions are
grouped into runs. A break on an earlier session of the same fold is not looked
at, so the orders of the sessions behind it still fill.
-/

namespace TradingEngine.Accounts

open KeyedTables OrderTypes Nyse Ledger Costs Fills Runs

variable {zone : Zone}

/-- The session from which losses are measured: that of the last resumption. -/
def Account.anchorSession (account : Account) : Option Int :=
  (lastResume account.log).bind Prod.fst

/-- Equity at the anchor session, or the initial cash. -/
def Account.anchorEquity (account : Account) (day : Int) : ℚ :=
  (account.anchorSession.bind fun anchor => (equityCurve account day).lookup anchor).getD
    account.ledger.initialCash

/-- Marks behind the anchor session through a day, oldest first. -/
def Account.marksSinceAnchor (account : Account) (day : Int) : List ℚ :=
  ((equityCurve account day).filter fun point =>
    account.anchorSession.all fun anchor => decide (anchor < point.1)).map Prod.snd

/-- The running peak since the anchor. -/
def Account.riskPeak (account : Account) (day : Int) : ℚ :=
  (account.marksSinceAnchor day).foldl max (account.anchorEquity day)

/-- The mark before a day's own. -/
def Account.priorMark (account : Account) (day : Int) : ℚ :=
  let marks := account.marksSinceAnchor day
  if 1 < marks.length then marks.dropLast.getLastD (account.anchorEquity day)
  else account.anchorEquity day

/-- The mark of a session behind the anchor is at or below a fifth under the running
peak, or a twentieth under the mark before it. -/
def Account.breached (account : Account) (day : Int) : Bool :=
  (account.anchorSession.all fun anchor => decide (anchor < day)) &&
    (account.equity.lookup day).any fun row =>
      decide (row.equity ≤ account.riskPeak day * (4 / 5)) ||
        decide (row.equity ≤ account.priorMark day * (19 / 20))

/-- A turn that fills an order which is not the engine's own. -/
def Turn.fillsOrdinary (world : World zone) (id : OrderId) (turn : Turn) : Bool :=
  match turn.item with
  | .execute row _ =>
    decide (row.orderId = id) && !isForced row &&
      (turn.account.ledger.fills.lookup id).isNone &&
      match applyItem world turn.session turn.account turn.item with
      | .ok next => (next.ledger.fills.lookup id).isSome
      | .error _ => false
  | _ => false

/-- Whether the turns of a fold fill an ordinary order in a session. -/
def fillsOrdinary (world : World zone) (turns : List Turn) (id : OrderId) (session : Int) : Bool :=
  turns.any fun turn => decide (turn.session.day = session) && turn.fillsOrdinary world id

theorem priorMark_le_riskPeak (account : Account) (day : Int) :
    account.priorMark day ≤ account.riskPeak day := by
  have bounds := le_foldl_max (account.marksSinceAnchor day) (account.anchorEquity day)
  unfold Account.priorMark Account.riskPeak
  dsimp only
  split
  · cases marks : (account.marksSinceAnchor day).dropLast.getLast? with
    | none =>
      rw [List.getLastD_eq_getLast?, marks]
      exact bounds.1
    | some prior =>
      rw [List.getLastD_eq_getLast?, marks]
      exact bounds.2 prior (List.dropLast_subset _ (List.mem_of_getLast? marks))
  · exact bounds.1

theorem haltReason_eq (account : Account) (day : Int) (equity : ℚ) :
    haltReason account day equity =
      if freshMismatch account day ((lastResume account.log).map Prod.snd) then
        .ok (some .haltReconciliation)
      else if equity ≤ account.riskPeak day * (4 / 5) then
        if account.riskPeak day ≤ 0 then .error .nonPositivePeak else .ok (some .haltDrawdown)
      else if 0 < account.priorMark day ∧ equity ≤ account.priorMark day * (19 / 20) then
        .ok (some .haltDailyLoss)
      else .ok none := rfl

variable {account : Account}

/-- A broken limit at the checked session is a reason to halt, unless the check raises. -/
theorem haltReason_of_breached {day : Int} {row : EquityRow}
    {reason : Option Reason} (marked : account.equity.lookup day = some row)
    (broken : account.breached day = true)
    (checked : haltReason account day row.equity = .ok reason) : reason.isSome = true := by
  have peaked := priorMark_le_riskPeak account day
  simp only [Account.breached, marked, Option.any_some, Bool.and_eq_true, Bool.or_eq_true,
    decide_eq_true_eq] at broken
  rw [haltReason_eq] at checked
  split at checked
  · cases checked
    rfl
  · split at checked
    · split at checked
      · cases checked
      · cases checked
        rfl
    · rename_i above
      have daily : row.equity ≤ account.priorMark day * (19 / 20) := by
        rcases broken.2 with low | low
        · exact absurd low above
        · exact low
      -- a prior mark of nothing or less would already be a drawdown
      have positive : 0 < account.priorMark day := by
        by_contra nonpos
        apply above
        rcases le_or_gt (account.riskPeak day) 0 with sunk | afloat
        · linarith
        · linarith
      rw [if_pos ⟨positive, daily⟩] at checked
      cases checked
      rfl

theorem breached_congr {before after : Account} (equity : after.equity = before.equity)
    (ledger : after.ledger = before.ledger)
    (resumed : lastResume after.log = lastResume before.log) (day : Int) :
    after.breached day = before.breached day := by
  have curve : equityCurve after day = equityCurve before day := by
    unfold equityCurve
    rw [equity]
  unfold Account.breached Account.riskPeak Account.priorMark Account.marksSinceAnchor
    Account.anchorEquity Account.anchorSession
  rw [equity, ledger, resumed, curve]

theorem haltAccount_lastResume {next : Account} {reason : Reason} {now : Int}
    (halted : haltAccount account reason now = .ok next) :
    lastResume next.log = lastResume account.log := by
  unfold haltAccount at halted
  split at halted
  · cases halted
  all_goals
    cases halted
    simp [lastResume]

variable {world : World zone}

theorem haltCheck_lastResume {next : Account} {day : Int}
    (checked : haltCheck world account day = .ok next) :
    lastResume next.log = lastResume account.log := by
  rcases haltCheck_cases checked with rfl | rfl | ⟨reason, halted⟩
  · rfl
  · rfl
  · have kept := haltAccount_lastResume halted
    exact kept

theorem finalizeRetirement_lastResume (world : World zone) (account : Account) :
    lastResume (finalizeRetirement world account).log = lastResume account.log := by
  unfold finalizeRetirement
  split
  · simp [lastResume]
  · rfl

/-- The steps that close a fold resume nothing. -/
theorem finishFold_lastResume {next : Account}
    (finished : finishFold world account = .ok next) :
    lastResume next.log = lastResume account.log := by
  obtain ⟨_, _, finished⟩ := bind_ok.mp finished
  split at finished
  · cases finished
    exact finalizeRetirement_lastResume world account
  · obtain ⟨checked, halts, finished⟩ := bind_ok.mp finished
    obtain ⟨maintained, reductions, finished⟩ := bind_ok.mp finished
    cases finished
    have reduced : maintained.log = checked.log :=
      congrArg Administration.log (checkMaintenance_administration reductions)
    rw [finalizeRetirement_lastResume, ← haltCheck_lastResume halts, ← reduced]
    split
    · exact congrArg (fun administration => lastResume administration.log)
        (queueBuyIns_administration world maintained _)
    · rfl

/-- A check of a session whose mark breaks a limit leaves the account halted. -/
theorem haltCheck_halts {next : Account} {day : Int}
    (broken : account.breached day = true) (running : account.settings.status.processing = true)
    (checked : haltCheck world account day = .ok next) : next.settings.status = .halted := by
  unfold haltCheck at checked
  split at checked
  · rename_i stopped
    cases checked
    rcases stopped with halted | retired
    · exact halted
    · simp [retired, AccountStatus.processing] at running
  · rename_i unstopped
    split at checked
    · cases checked
    · rename_i row marked
      obtain ⟨reason, decided, checked⟩ := bind_ok.mp checked
      obtain ⟨halting, rfl⟩ := Option.isSome_iff_exists.mp
        (haltReason_of_breached marked broken decided)
      dsimp only at checked
      unfold haltAccount at checked
      split at checked
      · rename_i retired
        exact absurd (.inr retired) unstopped
      · rename_i halted
        exact absurd (.inl halted) unstopped
      all_goals
        cases checked
        rfl

/-- A fold that leaves a broken limit at its latest mark leaves the account halted. -/
theorem finishFold_halts {next : Account} {day : Int}
    (latest : latestEquity account = some day) (broken : account.breached day = true)
    (running : account.settings.status.processing = true)
    (finished : finishFold world account = .ok next) : next.settings.status = .halted := by
  obtain ⟨_, _, finished⟩ := bind_ok.mp finished
  rw [latest] at finished
  obtain ⟨checked, halts, finished⟩ := bind_ok.mp finished
  obtain ⟨maintained, reductions, finished⟩ := bind_ok.mp finished
  cases finished
  have halted := haltCheck_halts broken running halts
  have kept : maintained.settings = checked.settings :=
    congrArg Administration.settings (checkMaintenance_administration reductions)
  have queued : (if world.shortConnection then queueBuyIns world maintained day
      else maintained).settings.status = .halted := by
    split
    · rw [show (queueBuyIns world maintained day).settings = maintained.settings from
        congrArg Administration.settings (queueBuyIns_administration world maintained day), kept]
      exact halted
    · rw [kept]
      exact halted
  unfold finalizeRetirement
  rw [if_neg (by simp [queued])]
  exact queued

/-- A call that may bring a halted account back. -/
def Operation.resumes : Operation zone → Bool
  | .resume _ authorised => authorised
  | _ => false

/-- An account that takes no intents and fills no ordinary orders. -/
def Account.Stopped (account : Account) : Prop :=
  account.settings.status = .halted ∨ account.settings.status = .retiring ∨
    account.settings.status = .retired

theorem Account.Stopped.of_windsDown {before after : Account} (stopped : before.Stopped)
    (down : WindsDown before after) : after.Stopped := by
  rcases down.status with same | halted | ⟨retired, _⟩
  · unfold Account.Stopped
    rw [same]
    exact stopped
  · exact .inl halted
  · exact .inr (.inr retired)

/-- Only a resumption brings a stopped account back. -/
theorem step_stopped (stopped : account.Stopped) {operation : Operation zone}
    (unresumed : operation.resumes = false) : (step account operation).Stopped := by
  cases operation with
  | submit world intent =>
    change (submit world account intent).Stopped
    rcases submit_cases world account intent with same | ⟨trading, _⟩
    · exact same.symm ▸ stopped
    · rcases stopped with status | status | status <;> simp [status] at trading
  | cancel world id => exact stopped.of_windsDown (cancel_windsDown world account id)
  | settle world day => exact stopped.of_windsDown (settleSession_windsDown world account day)
  | halt world => exact stopped.of_windsDown (halt_windsDown world account)
  | resume world authorised =>
    change authorised = false at unresumed
    change (resume world account authorised).Stopped
    rw [unresumed]
    exact stopped
  | retire world =>
    change (retire world account).Stopped
    unfold retire
    split
    · exact stopped
    · exact stopped
    all_goals
      dsimp only
      split
      · exact .inr (.inr rfl)
      · exact .inr (.inl rfl)
  | finalizeRetirement world =>
    exact stopped.of_windsDown (finalizeRetirement_windsDown world account)
  | reconcile world sessionDate evidence =>
    exact stopped.of_windsDown (reconcile_windsDown world account sessionDate evidence)
  | verify world sessionDate =>
    exact stopped.of_windsDown (verifyAccount_windsDown world account sessionDate)
  | settlement world terms =>
    exact stopped.of_windsDown (bookSettlement_windsDown world account terms)
  | reconcileSettled ticker => exact stopped

theorem turn_fillsOrdinary {turn : Turn} {id : OrderId}
    (stopped : turn.session.settings.status = .halted ∨ turn.session.settings.status = .retiring) :
    turn.fillsOrdinary world id = false := by
  unfold Turn.fillsOrdinary
  cases item : turn.item with
  | execute row result =>
    dsimp only
    cases applied : applyItem world turn.session turn.account (.execute row result) with
    | error raised => simp
    | ok next =>
      obtain ⟨outcome, settled, rfl⟩ := map_ok.mp applied
      rcases settleOrder_books settled with ⟨_, same⟩ | ⟨_, _, _, ready, _⟩
      · dsimp only
        rw [same]
        cases turn.account.ledger.fills.lookup id <;> simp
      · simp [preflight_stopped stopped ready]
  | recorded event => rfl
  | interest => rfl
  | dividends => rfl
  | borrow => rfl

/-- No fold of a halted or retiring account fills an ordinary order. -/
theorem stopped_fills_none {operation : Operation zone}
    {stop : Int} {mutation : Account → Except AccountError Account}
    (call : FoldCall account operation world stop mutation)
    (stopped : account.settings.status = .halted ∨ account.settings.status = .retiring)
    (id : OrderId) (session : Int) :
    fillsOrdinary world (mutatedTurns world account stop mutation) id session = false := by
  unfold fillsOrdinary
  apply List.any_eq_false.mpr
  intro turn member
  unfold mutatedTurns at member
  split at member
  · rename_i changed mutated
    obtain ⟨_, _, administration, _⟩ := call.mutates mutated
    have settings : changed.settings = account.settings :=
      congrArg Administration.settings administration
    obtain ⟨_, _, _, _, opened, _⟩ := mem_foldTurns member
    have stopping : turn.session.settings.status = .halted ∨
        turn.session.settings.status = .retiring := by
      rw [opened]
      change changed.settings.status = .halted ∨ changed.settings.status = .retiring
      rw [settings]
      exact stopped
    simp [turn_fillsOrdinary stopping]
  · cases member

/-- A fold that leaves its latest mark under a limit is the last to fill ordinary orders
until the account is resumed, whatever else is called in between. -/
theorem breached_close_stops_orders (account : Account) (world : World zone) (day : Int)
    (running : account.settings.status.processing = true) {folded : Account}
    (done : foldAccount world account day (closeOutDelisted world day) = .ok folded)
    {latest : Int} (marked : latestEquity folded = some latest)
    (broken : folded.breached latest = true) (later : List (Operation zone))
    (unresumed : ∀ operation ∈ later, operation.resumes = false) {reached : Account}
    (run : reached = later.foldl step (step account (.settle world day)))
    (still : reached.settings.status.processing = true) (again : World zone) (stop : Int)
    (id : OrderId) (session : Int) :
    fillsOrdinary again (mutatedTurns again reached stop (closeOutDelisted again stop)) id
      session = false := by
  have settled : step account (.settle world day) = folded := by
    simp [step, settleSession, running, done]
  have halted : folded.settings.status = .halted := by
    obtain ⟨_, _, done⟩ := bind_ok.mp done
    obtain ⟨changed, mutated, done⟩ := bind_ok.mp done
    obtain ⟨looped, loop, finished⟩ := bind_ok.mp done
    have supervised := finishFold_supervised finished
    have settings : looped.settings = account.settings :=
      congrArg Administration.settings
        ((foldLoop_administration loop).trans (closeOutDelisted_administration mutated))
    have last : latestEquity looped = some latest := by
      rw [← marked]
      unfold latestEquity
      rw [supervised.equity]
    have under : looped.breached latest = true := by
      rw [← broken]
      exact (breached_congr supervised.equity (congrArg Prod.snd supervised.books)
        (finishFold_lastResume finished) latest).symm
    exact finishFold_halts last under (settings ▸ running) finished
  have stopped : reached.Stopped := by
    rw [run, settled]
    refine foldl_invariant Account.Stopped ?_ (.inl halted)
    intro operation listed state held
    exact step_stopped held (unresumed operation listed)
  refine stopped_fills_none (.settle again stop) ?_ id session
  rcases stopped with status | status | status
  · exact .inl status
  · exact .inr status
  · simp [status, AccountStatus.processing] at still

/-- One instrument loses two fifths on a Wednesday. -/
def crashPrice (ticker : Ticker) (day : Int) : ℚ :=
  if ticker = "SYM" ∧ 739770 ≤ day then 6 else 10

theorem crashPrice_positive (ticker : Ticker) (day : Int) : 0 < crashPrice ticker day := by
  unfold crashPrice
  split <;> norm_num

/-- The world of that week, seen at an hour of a day. -/
def crashingWorld (day hours : Int) : World daylightTime :=
  { sampleWorld day hours with
    market := { (steadyMarket 10 ten_positive : Market daylightTime) with
      dailyBar := fun _ ticker date _ => some ⟨crashPrice ticker date, crashPrice ticker date,
        crashPrice_positive ticker date, crashPrice_positive ticker date⟩
      latestClose := fun _ ticker date strict _ =>
        let seen := if strict then previousSession date else date
        some (seen, crashPrice ticker seen)
      latestClose_positive := by
        intro _ ticker date strict _ observed found
        cases found
        exact crashPrice_positive ticker _ } }

/-- The holding is bought on Tuesday and lost two fifths by Wednesday's close. -/
def boughtBeforeCrash : List (Operation daylightTime) :=
  [.submit (crashingWorld 739768 22) (sampleIntent "entry" "SYM" .buy 900 739768)]

/-- Settled through Wednesday, the account fills nothing ordinary on Thursday. -/
theorem crash_stops_thursday :
    ∃ folded, foldAccount (crashingWorld 739770 22) (boughtBeforeCrash.foldl step sampleAccount)
        739770 (closeOutDelisted (crashingWorld 739770 22) 739770) = .ok folded ∧
      folded.breached 739770 = true ∧
      fillsOrdinary (crashingWorld 739771 22)
        (mutatedTurns (crashingWorld 739771 22)
          (step (boughtBeforeCrash.foldl step sampleAccount) (.settle (crashingWorld 739770 22) 739770))
          739771 (closeOutDelisted (crashingWorld 739771 22) 739771)) 2 739771 = false := by
  obtain ⟨folded, done⟩ := exists_ok (show (foldAccount (crashingWorld 739770 22)
      (boughtBeforeCrash.foldl step sampleAccount) 739770
      (closeOutDelisted (crashingWorld 739770 22) 739770)).isOk = true by decide +kernel)
  have running : (boughtBeforeCrash.foldl step sampleAccount).settings.status.processing = true := by
    decide +kernel
  have settled : step (boughtBeforeCrash.foldl step sampleAccount)
      (.settle (crashingWorld 739770 22) 739770) = folded := by
    simp only [step, settleSession, running, if_true, done]
  have marked : latestEquity folded = some 739770 := by
    rw [← settled]
    decide +kernel
  have broken : folded.breached 739770 = true := by
    rw [← settled]
    decide +kernel
  refine ⟨folded, done, broken, ?_⟩
  exact breached_close_stops_orders _ _ _ running done marked broken [] (by simp) rfl
    (by decide +kernel) _ _ 2 739771

/-- Settled for the first time on Thursday, the same week fills an order behind
Wednesday's loss. -/
theorem breach_within_a_fold_fills :
    ¬ ∀ (operations : List (Operation daylightTime)) (world : World daylightTime) (day : Int)
        (folded : Account) (id : OrderId) (session breach : Int),
      foldAccount world (operations.foldl step sampleAccount) day (closeOutDelisted world day) =
          .ok folded →
        fillsOrdinary world (mutatedTurns world (operations.foldl step sampleAccount) day
          (closeOutDelisted world day)) id session = true →
        breach < session → folded.breached breach = false := by
  intro claim
  let operations := boughtBeforeCrash ++
    [.submit (crashingWorld 739770 22) (sampleIntent "second" "OTHER" .buy 50 739770)]
  obtain ⟨folded, done⟩ := exists_ok (show (foldAccount (crashingWorld 739771 22)
      (operations.foldl step sampleAccount) 739771
      (closeOutDelisted (crashingWorld 739771 22) 739771)).isOk = true by decide +kernel)
  have settled : step (operations.foldl step sampleAccount)
      (.settle (crashingWorld 739771 22) 739771) = folded := by
    have running : (operations.foldl step sampleAccount).settings.status.processing = true := by
      decide +kernel
    simp only [step, settleSession, running, if_true, done]
  have unbroken := claim operations (crashingWorld 739771 22) 739771 folded 2 739771 739770 done
    (by decide +kernel) (by decide)
  rw [← settled] at unbroken
  revert unbroken
  decide +kernel

end TradingEngine.Accounts
