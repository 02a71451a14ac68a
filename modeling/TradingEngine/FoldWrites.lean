import TradingEngine.LedgerGrowth
import TradingEngine.OrderFlow

/-!
# What a fold writes into the ledger

The entries of a session add rows of that session only: fills at times within it,
dividends with its date as ex-date, and cash events of its date. So a later entry
never changes what the ledger said about an earlier day.
-/

namespace TradingEngine.Accounts

open KeyedTables OrderTypes Nyse Ledger Costs Fills Runs

variable {zone : Zone}

theorem nextCashSeq_missing (events : Table (Int × Nat) CashRow) (day : Int) :
    events.lookup (day, nextCashSeq events day) = none := by
  apply AList.lookup_eq_none.mpr
  intro member
  have listed : nextCashSeq events day ∈ (events.keys.filter fun key => key.1 = day).map Prod.snd :=
    List.mem_map.mpr ⟨(day, nextCashSeq events day),
      List.mem_filter.mpr ⟨AList.mem_keys.mp member, by simp⟩, rfl⟩
  have bounded : nextCashSeq events day ≤
      ((events.keys.filter fun key => key.1 = day).map Prod.snd).foldr max 0 := le_foldr_max listed
  exact absurd bounded (Nat.not_succ_le_self _)

theorem applyCashEvent_appended (account : Account) (day : Int) (row : CashRow) :
    Appended day account.ledger (applyCashEvent account day row).ledger :=
  ⟨rfl, rfl, rfl, .refl _, .insert (nextCashSeq_missing _ _) le_rfl, .refl _⟩

theorem postAccrual_appended (account : Account) (day : Int) (row : CashRow) :
    Appended day account.ledger (postAccrual account day row).ledger := by
  unfold postAccrual
  dsimp only
  split
  · exact .refl day _
  · exact applyCashEvent_appended _ day _

theorem accrueInterest_appended (zone : Zone) (account : Account) (day : Int) :
    Appended day account.ledger (accrueInterest zone account day).ledger := by
  unfold accrueInterest
  split
  · exact postAccrual_appended account day _
  · exact .refl day _

variable {account : Account}

theorem accrueBorrow_appended {market : Market zone} {next : Account} {day : Int}
    (accrued : accrueBorrow market account day = .ok next) :
    Appended day account.ledger next.ledger := by
  unfold accrueBorrow at accrued
  split at accrued
  · refine foldlM_invariant (fun state => Appended day account.ledger state.ledger) ?_
      (.refl day _) accrued
    intro row _ state after appended charged
    obtain ⟨close, _, charged⟩ := bind_ok.mp charged
    cases charged
    exact appended.trans (postAccrual_appended state day _)
  · cases accrued
    exact .refl day _

theorem creditDividend_appended (zone : Zone) (day : Int) (account : Account)
    (payment : Ticker × ℚ × ℚ) :
    Appended day account.ledger (creditDividend zone day account payment).ledger := by
  unfold creditDividend
  dsimp only
  split
  · rename_i missing
    split
    · exact .refl day _
    · exact ⟨rfl, rfl, rfl, .insert missing le_rfl, .refl _, .refl _⟩
  · split
    · exact applyCashEvent_appended account day _
    · exact .refl day _

variable {world : World zone}

theorem creditDividends_appended {next : Account} {day : Int}
    (credited : creditDividends world account day = .ok next) :
    Appended day account.ledger next.ledger := by
  unfold creditDividends at credited
  dsimp only at credited
  split at credited
  · cases credited
    exact .refl day _
  · split at credited
    · cases credited
    · obtain ⟨holding, _, credited⟩ := bind_ok.mp credited
      cases credited
      refine foldl_invariant (fun state : Account => Appended day account.ledger state.ledger) ?_
        (.refl day _)
      intro payment _ state appended
      exact appended.trans (creditDividend_appended zone day state payment)

theorem recordPenalty_appended (world : World zone) (session : Session) (account : Account)
    (row : PendingRow) :
    Appended session.day account.ledger (recordPenalty world session account row).ledger := by
  unfold recordPenalty
  split
  · exact applyCashEvent_appended account session.day _
  · exact .refl _ _

theorem settleOrder_appended {session : Session}
    {row : PendingRow} {result : FillResult} {outcome : Account × Settled}
    (settled : settleOrder world session account row result = .ok outcome)
    (timed : ∀ terms, result = .filled terms → dateOf terms.fillTs = session.day) :
    Appended session.day account.ledger outcome.1.ledger := by
  cases settleOrder_settlement settled with
  | stopped => exact .refl _ _
  | waited => exact .refl _ _
  | unfilled => exact .refl _ _
  | lapsed => exact .refl _ _
  | refused => simpa [Account.setState] using Appended.refl _ _
  | vanished =>
    refine Appended.trans ?_ (recordPenalty_appended world session _ _)
    simpa [Account.setState] using Appended.refl _ _
  | executed qty terms flagged _ priced execution =>
    refine Appended.trans ?_ (recordPenalty_appended world session _ _)
    have missing := execution.unfilled
    simp only [afterPdt_ledger] at missing
    simp only [Account.setState, Execution.booked, recordFill, afterPdt_ledger]
    exact ⟨rfl, rfl, rfl, .refl _, .refl _,
      .insert missing ⟨terms.fillTs, rfl, (timed terms priced).ge⟩⟩

/-- An entry of a fold adds rows of its session. -/
theorem applyItem_appended {next : Account} {stop : Int} {turn : Turn}
    (member : turn ∈ foldTurns world account stop)
    (applied : applyItem world turn.session turn.account turn.item = .ok next) :
    Appended turn.session.day turn.account.ledger next.ledger := by
  obtain ⟨day, sequence, _, _, session, visited⟩ := mem_foldTurns member
  cases item : turn.item with
  | recorded event =>
    rw [item] at applied
    obtain ⟨book, _, applied⟩ := bind_ok.mp applied
    cases applied
    exact .refl _ _
  | interest =>
    rw [item] at applied
    cases applied
    exact accrueInterest_appended zone _ _
  | dividends =>
    rw [item] at applied
    exact creditDividends_appended applied
  | borrow =>
    rw [item] at applied
    exact accrueBorrow_appended applied
  | execute row result =>
    rw [item] at applied visited
    obtain ⟨outcome, settled, rfl⟩ := map_ok.mp applied
    obtain ⟨_, _, _, _, _, _, _, attempted⟩ := executing_order visited
    refine settleOrder_appended settled ?_
    intro terms priced
    rw [attempted] at priced
    rw [(fillAttempt_filled priced).dated, session]
    rfl

theorem daysFrom_ordered (start stop : Int) : (daysFrom start stop).Pairwise (· < ·) := by
  unfold daysFrom
  rw [List.pairwise_map]
  refine List.pairwise_lt_range.imp ?_
  intro a b less
  omega

/-- What the entries from a session on preserve lasts from a turn of it to the end. -/
theorem foldTurns_onward (invariant : Account → Prop)
    {final : Account} {stop : Int}
    (completed : foldLoop world account stop = .ok final) :
    ∀ turn ∈ foldTurns world account stop,
      (∀ state day next, turn.session.day ≤ day → invariant state →
        markAccount world state day = .ok next → invariant next) →
      (∀ later ∈ foldTurns world account stop, turn.session.day ≤ later.session.day → ∀ next,
        invariant later.account → applyItem world later.session later.account later.item = .ok next →
        invariant next) →
      ∃ next, applyItem world turn.session turn.account turn.item = .ok next ∧
        (invariant next → invariant final) := by
  obtain ⟨opened, plan, done, days⟩ := foldLoop_ok completed
  have turns : foldTurns world account stop =
      (visitedM (foldDay world plan) opened (daysFrom plan.start plan.stop)).flatMap fun visit =>
        dayTurns world plan.settings visit.1 visit.2 := by
    unfold foldTurns
    rw [done]
  have dayOf : ∀ visit : Account × Int, ∀ turn ∈ dayTurns world plan.settings visit.1 visit.2,
      turn.session.day = visit.2 := by
    intro visit turn inside
    rw [(mem_dayTurns.mp inside).2.1]
    rfl
  intro turn member marks kept
  rw [turns] at member kept
  obtain ⟨visit, visited, inside⟩ := List.mem_flatMap.mp member
  rw [dayOf visit turn inside] at kept marks
  have listed : ∀ other ∈ visitedM (foldDay world plan) opened (daysFrom plan.start plan.stop),
      ∀ later ∈ dayTurns world plan.settings other.1 other.2,
        later ∈ (visitedM (foldDay world plan) opened (daysFrom plan.start plan.stop)).flatMap
          fun visit => dayTurns world plan.settings visit.1 visit.2 :=
    fun other present later inner => List.mem_flatMap.mpr ⟨other, present, inner⟩
  -- the days behind the turn's own
  obtain ⟨nextDay, folded, lasts⟩ := visitedM_onward invariant (daysFrom_ordered _ _) days visit
    visited (by
      intro other present later next holds day
      refine foldDay_invariant invariant ?_
        (fun state after => marks state other.2 after later.le) holds day
      intro inner innerTurn after _ before applied
      refine kept inner (listed other present inner innerTurn) ?_ after before applied
      rw [dayOf other inner innerTurn]
      exact later.le)
  obtain ⟨begun, session, running, sequence, read, stepped⟩ := mem_dayTurns.mp inside
  rcases foldDay_ok folded with ⟨closed, _⟩ | ⟨_, settled, folding, finished⟩
  · simp [closed] at running
  · -- the entries behind the turn in its session
    obtain ⟨sequence', _, read', ran⟩ := foldSession_ok folding
    obtain rfl : sequence = sequence' := Except.ok.inj (read.symm.trans read')
    obtain ⟨next, applied, carries⟩ := visitedM_lasts invariant (by
      intro inner innerVisited after holds applied
      have own : (⟨openSession world plan.settings visit.1 visit.2, visit.1, inner.1, inner.2⟩ :
          Turn) ∈ dayTurns world plan.settings visit.1 visit.2 :=
        mem_dayTurns.mpr ⟨rfl, rfl, running, sequence, read, innerVisited⟩
      exact kept _ (listed visit visited _ own) (dayOf visit _ own).ge after holds applied) ran
      (turn.account, turn.item) stepped
    refine ⟨next, by rw [session]; exact applied, ?_⟩
    intro holds
    apply lasts
    rcases finished with rfl | marked
    · exact carries holds
    · exact marks settled visit.2 nextDay le_rfl (carries holds) marked

/-- What the opening, the marks and the earlier sessions of a fold preserve holds where a
session begins. -/
theorem foldTurns_before (invariant : Account → Prop)
    {stop : Int} (session : Int)
    (opening : ∀ opened plan, openFold world account stop = .ok (opened, plan) → invariant opened)
    (sessions : ∀ state day next, day < session → invariant state →
      foldSession world account.settings state day = .ok next → invariant next)
    (marks : ∀ state day next, invariant state → markAccount world state day = .ok next →
      invariant next) :
    ∀ turn ∈ foldTurns world account stop, turn.session.day = session →
      invariant turn.begun ∧ turn.session = openSession world account.settings turn.begun session ∧
      ∃ sequence, (turn.account, turn.item) ∈
        sessionVisits world account.settings turn.begun session sequence := by
  intro turn member own
  unfold foldTurns at member
  split at member
  · rename_i opened plan done
    obtain ⟨_, _, _, _, _, _, _, settings⟩ := openFold_ok done
    obtain ⟨visit, visited, inside⟩ := List.mem_flatMap.mp member
    obtain ⟨begun, opens, _, sequence, _, stepped⟩ := mem_dayTurns.mp inside
    have day : visit.2 = session := by
      rw [← own, opens]
      rfl
    rw [settings, day, ← begun] at opens stepped
    refine ⟨?_, opens, sequence, stepped⟩
    rw [begun]
    refine visitedM_before invariant (daysFrom_ordered _ _) (opening opened plan done) visit visited ?_
    intro earlier _ before next holds folded
    obtain ⟨-, rfl⟩ | ⟨-, settled, ran, finished⟩ := foldDay_ok folded
    · exact holds
    · rw [settings] at ran
      have stepped := sessions earlier.1 earlier.2 settled (by rw [← day]; exact before) holds ran
      rcases finished with rfl | marked
      · exact stepped
      · exact marks settled earlier.2 next stepped marked
  · simp at member

theorem mem_captured_rows {through : Int} {event : Event}
    (listed : event ∈ (captureSplits world account through).ledger.rows) :
    (∃ ticker ex ratio, event = .split ticker ex ratio) ∨ event ∈ account.ledger.rows := by
  unfold LedgerTables.rows at listed ⊢
  simp only [captureSplits, List.mem_append, List.mem_map] at listed ⊢
  rcases listed with (((⟨row, _, rfl⟩ | dividend) | settlement) | cash) | fill
  · exact .inl ⟨_, _, _, rfl⟩
  · exact .inr (.inl (.inl (.inl (.inr dividend))))
  · exact .inr (.inl (.inl (.inr settlement)))
  · exact .inr (.inl (.inr cash))
  · exact .inr (.inr fill)

theorem split_of_before {opened : Account} {stop : Int}
    {plan : FoldPlan} (done : openFold world account stop = .ok (opened, plan)) {event : Event}
    (listed : event ∈ (captureSplits world account plan.stop).ledger.rows)
    (before : event.date zone .account < plan.start) :
    ∃ ticker ex ratio, event = .split ticker ex ratio := by
  rcases mem_captured_rows listed with isSplit | recorded
  · exact isSplit
  · obtain ⟨sequence, _, read, _, _, start, _⟩ := openFold_ok done
    have inside : event ∈ sequence := (mem_events read).mpr ⟨recorded, rfl⟩
    have least : plan.start ≤ event.date zone .account := by
      rw [start]
      exact (foldl_min_le _ _).2 _ (List.mem_map_of_mem inside)
    exact absurd before (not_lt.mpr least)

theorem foldTurns_day {opened : Account} {stop : Int}
    {plan : FoldPlan} (done : openFold world account stop = .ok (opened, plan)) {turn : Turn}
    (member : turn ∈ foldTurns world account stop) :
    isSession turn.session.day = true ∧ plan.start ≤ turn.session.day ∧
      turn.session.day ≤ plan.stop := by
  unfold foldTurns at member
  rw [done] at member
  obtain ⟨visit, visited, inside⟩ := List.mem_flatMap.mp member
  obtain ⟨_, session, running, _⟩ := mem_dayTurns.mp inside
  have day : turn.session.day = visit.2 := by rw [session]; rfl
  have listed := visitedM_mem visit visited
  unfold daysFrom at listed
  obtain ⟨offset, inRange, same⟩ := List.mem_map.mp listed
  rw [List.mem_range] at inRange
  rw [day]
  exact ⟨running.1, by omega, by omega⟩

/-- A fold adds rows of its window only. -/
theorem foldLoop_appended {opened final : Account} {stop : Int}
    {plan : FoldPlan} (done : openFold world account stop = .ok (opened, plan))
    (completed : foldLoop world account stop = .ok final) :
    Appended plan.start opened.ledger final.ledger := by
  refine foldLoop_invariant (fun state => Appended plan.start opened.ledger state.ledger) ?_ ?_ ?_
    completed
  · intro opened' plan' done'
    obtain ⟨rfl, rfl⟩ := Prod.mk.inj (Except.ok.inj (done.symm.trans done'))
    exact .refl _ _
  · intro turn member next _ appended applied
    exact appended.trans ((applyItem_appended member applied).mono (foldTurns_day done member).2.1)
  · intro state day next appended marked
    obtain ⟨row, prices, rfl⟩ := markAccount_ok marked
    exact appended

/-- Before its window a fold finds the opening book. -/
theorem openFold_before {opened : Account} {stop through : Int}
    {plan : FoldPlan} (done : openFold world account stop = .ok (opened, plan))
    (before : through < plan.start) :
    rebuildState zone account.ledgerSettings opened.ledger (some through) =
      .ok (.opening account.ledger.initialCash) := by
  obtain ⟨_, book, _, rebuilt, rfl, _⟩ := openFold_ok done
  have timed : (captureSplits world account plan.stop).ledger.untimed .account = none := by
    unfold rebuildState at rebuilt
    split at rebuilt
    · cases rebuilt
    · rename_i listed
      exact (events_ok listed).1
  have listed : events zone account.ledgerSettings.engine
      (captureSplits world account plan.stop).ledger none (some through) = .ok (inOrder zone .account
        ((captureSplits world account plan.stop).ledger.rows.filter
          (Event.within zone .account none (some through)))) := by
    unfold events
    rw [show account.ledgerSettings.engine = .account from rfl, timed]
    rfl
  have splits : ∀ event ∈ inOrder zone .account
      ((captureSplits world account plan.stop).ledger.rows.filter
        (Event.within zone .account none (some through))),
      ∃ ticker ex ratio, event = .split ticker ex ratio := by
    intro event member
    obtain ⟨recorded, window⟩ := (mem_events listed).mp member
    refine split_of_before done recorded ?_
    simp only [Event.within, Option.all_none, Option.all_some, Bool.true_and,
      decide_eq_true_eq] at window
    exact lt_of_le_of_lt window before
  change rebuildState zone account.ledgerSettings (captureSplits world account plan.stop).ledger
    (some through) = _
  unfold rebuildState
  rw [listed]
  dsimp only
  generalize inOrder zone .account _ = sequence at splits
  induction sequence with
  | nil => rfl
  | cons event rest ih =>
    obtain ⟨ticker, ex, ratio, rfl⟩ := splits event List.mem_cons_self
    exact ih fun other member => splits other (List.mem_cons_of_mem _ member)

end TradingEngine.Accounts
