import TradingEngine.FoldWrites
import TradingEngine.RiskHalts

/-!
# When the halt check returns

Losses are measured from the running peak since the last resumption. An account that is
resumed with an equity of nothing or less has no positive peak from there on: the limit is
then always broken, and the relative loss that the halt would record is refused. The check
raises instead of halting, and one call for all accounts raises with it.
-/

namespace TradingEngine.Accounts

open KeyedTables OrderTypes Nyse Ledger Costs Fills Runs

variable {zone : Zone}

/-- The halt check of every active account, in order. -/
def checkAll (world : World zone) (accounts : List Account) (sessionDate : Int) :
    Except AccountError (List Account) :=
  accounts.mapM fun account =>
    if account.settings.status = .active then haltCheck world account sessionDate else .ok account

/-- Some mark from the session of the last resumption on is positive, if that session is
marked. -/
def Account.AboveWater (account : Account) (day : Int) : Prop :=
  ∀ anchor row, account.anchorSession = some anchor → anchor ≤ day →
    account.equity.lookup anchor = some row →
    ∃ session later, anchor ≤ session ∧ session ≤ day ∧
      account.equity.lookup session = some later ∧ 0 < later.equity

/-- What the check needs of a marked session: the account is stopped already, a mismatch is on
record that decides the halt, or there was equity since the last resumption. -/
def Account.Checkable (account : Account) (day : Int) : Prop :=
  account.settings.status = .halted ∨ account.settings.status = .retired ∨
    freshMismatch account day ((lastResume account.log).map Prod.snd) = true ∨
    account.AboveWater day

variable {account : Account}

theorem mem_equityCurve {through day : Int} {equity : ℚ} :
    (day, equity) ∈ equityCurve account through ↔
      day ≤ through ∧ ∃ row, account.equity.lookup day = some row ∧ row.equity = equity := by
  unfold equityCurve
  simp only [List.mem_map, List.mem_insertionSort, List.mem_filter, Prod.mk.injEq,
    decide_eq_true_eq]
  constructor
  · rintro ⟨row, ⟨listed, before⟩, rfl, rfl⟩
    exact ⟨before, row.2, lookup_of_mem listed, rfl⟩
  · rintro ⟨before, row, found, rfl⟩
    exact ⟨⟨day, row⟩, ⟨mem_of_lookup found, before⟩, rfl, rfl⟩

theorem mem_of_listLookup {points : List (Int × ℚ)} {day : Int} {equity : ℚ}
    (found : points.lookup day = some equity) : (day, equity) ∈ points := by
  induction points with
  | nil => cases found
  | cons point rest ih =>
    obtain ⟨other, value⟩ := point
    rw [List.lookup_cons] at found
    split at found
    · rename_i same
      obtain rfl := beq_iff_eq.mp same
      cases found
      exact List.mem_cons_self
    · exact List.mem_cons_of_mem _ (ih found)

theorem anchorEquity_cases (account : Account) (day : Int) :
    (∃ anchor row, account.anchorSession = some anchor ∧ anchor ≤ day ∧
      account.equity.lookup anchor = some row ∧ account.anchorEquity day = row.equity) ∨
    ((∀ anchor row, account.anchorSession = some anchor → anchor ≤ day →
      account.equity.lookup anchor ≠ some row) ∧
      account.anchorEquity day = account.ledger.initialCash) := by
  cases session : account.anchorSession with
  | none => exact .inr ⟨by simp, by simp [Account.anchorEquity, session]⟩
  | some anchor =>
    cases seen : (equityCurve account day).lookup anchor with
    | some equity =>
      obtain ⟨before, row, found, rfl⟩ := mem_equityCurve.mp (mem_of_listLookup seen)
      exact .inl ⟨anchor, row, rfl, before, found, by simp [Account.anchorEquity, session, seen]⟩
    | none =>
      refine .inr ⟨?_, by simp [Account.anchorEquity, session, seen]⟩
      rintro other row same before found
      obtain rfl := Option.some.inj same
      have absent := List.lookup_eq_none_iff.mp seen _
        (mem_equityCurve.mpr ⟨before, row, found, rfl⟩)
      simp at absent

theorem mem_marksSinceAnchor {day : Int} {equity : ℚ} :
    equity ∈ account.marksSinceAnchor day ↔
      ∃ session row, (∀ anchor ∈ account.anchorSession, anchor < session) ∧ session ≤ day ∧
        account.equity.lookup session = some row ∧ row.equity = equity := by
  unfold Account.marksSinceAnchor
  rw [List.mem_map]
  constructor
  · rintro ⟨⟨session, value⟩, listed, rfl⟩
    obtain ⟨point, after⟩ := List.mem_filter.mp listed
    obtain ⟨before, row, found, same⟩ := mem_equityCurve.mp point
    refine ⟨session, row, fun anchor anchored => ?_, before, found, same⟩
    rw [Option.mem_def.mp anchored] at after
    simpa using after
  · rintro ⟨session, row, after, before, found, rfl⟩
    refine ⟨(session, row.equity), List.mem_filter.mpr
      ⟨mem_equityCurve.mpr ⟨before, row, found, rfl⟩, ?_⟩, rfl⟩
    cases anchored : account.anchorSession with
    | none => rfl
    | some anchor => simpa using after anchor anchored

/-- A running maximum is positive exactly when one of its values is. -/
theorem foldl_max_pos {values : List ℚ} {first : ℚ} :
    0 < values.foldl max first ↔ 0 < first ∨ ∃ value ∈ values, 0 < value := by
  induction values generalizing first with
  | nil => simp
  | cons value rest ih =>
    rw [List.foldl_cons, ih, lt_max_iff, or_assoc]
    simp

/-- The running peak of a funded account is positive exactly when it was above water. -/
theorem riskPeak_pos_iff {day : Int}
    (funded : 0 < account.ledger.initialCash) :
    0 < account.riskPeak day ↔ account.AboveWater day := by
  unfold Account.riskPeak
  rw [foldl_max_pos]
  rcases anchorEquity_cases account day with ⟨anchor, row, session, before, found, equity⟩ |
    ⟨unmarked, equity⟩
  · rw [equity]
    constructor
    · rintro positive other stored same reached marked
      obtain rfl := Option.some.inj (session.symm.trans same)
      rcases positive with own | ⟨value, listed, positive⟩
      · obtain rfl := Option.some.inj (found.symm.trans marked)
        exact ⟨anchor, row, le_refl _, reached, found, own⟩
      · obtain ⟨late, later, after, stop, lateFound, rfl⟩ := mem_marksSinceAnchor.mp listed
        exact ⟨late, later, (after anchor session).le, stop, lateFound, positive⟩
    · intro above
      obtain ⟨late, later, after, stop, lateFound, positive⟩ :=
        above anchor row session before found
      rcases after.eq_or_lt with rfl | after
      · obtain rfl := Option.some.inj (found.symm.trans lateFound)
        exact .inl positive
      · refine .inr ⟨_, mem_marksSinceAnchor.mpr ⟨late, later, ?_, stop, lateFound, rfl⟩, positive⟩
        intro other same
        obtain rfl := Option.some.inj (session.symm.trans same)
        exact after
  · rw [equity]
    exact iff_of_true (.inl funded) fun anchor row session before found =>
      absurd found (unmarked anchor row session before)

/-- A marked session is not above the running peak, unless the initial cash is not. -/
theorem le_riskPeak {day : Int} {row : EquityRow}
    (marked : account.equity.lookup day = some row) :
    row.equity ≤ account.riskPeak day ∨ account.ledger.initialCash ≤ account.riskPeak day := by
  obtain ⟨anchored, since⟩ := le_foldl_max (account.marksSinceAnchor day)
    (account.anchorEquity day)
  rcases anchorEquity_cases account day with ⟨anchor, stored, session, before, found, equity⟩ |
    ⟨-, equity⟩
  · rcases before.eq_or_lt with rfl | earlier
    · obtain rfl := Option.some.inj (marked.symm.trans found)
      exact .inl (equity ▸ anchored)
    · refine .inl (since _ (mem_marksSinceAnchor.mpr ⟨day, row, ?_, le_refl day, marked, rfl⟩))
      intro other same
      obtain rfl := Option.some.inj (session.symm.trans same)
      exact earlier
  · exact .inr (equity ▸ anchored)

/-- The rules give an answer exactly when a mismatch decides or there was equity. -/
theorem haltReason_returns_iff {day : Int} {row : EquityRow}
    (funded : 0 < account.ledger.initialCash) (marked : account.equity.lookup day = some row) :
    (∃ reason, haltReason account day row.equity = .ok reason) ↔
      freshMismatch account day ((lastResume account.log).map Prod.snd) = true ∨
        account.AboveWater day := by
  rw [haltReason_eq, ← riskPeak_pos_iff funded]
  by_cases mismatch : freshMismatch account day ((lastResume account.log).map Prod.snd) = true
  · rw [if_pos mismatch]
    exact iff_of_true ⟨_, rfl⟩ (.inl mismatch)
  · rw [if_neg mismatch, or_iff_right mismatch]
    rcases le_or_gt (account.riskPeak day) 0 with sunk | afloat
    · -- a mark is never above a peak that is not positive, so the limit is broken
      have low : row.equity ≤ account.riskPeak day := by
        rcases le_riskPeak marked with below | initial
        · exact below
        · exact absurd (initial.trans sunk) (not_le.mpr funded)
      have broken : row.equity ≤ account.riskPeak day * (4 / 5) := by linarith
      rw [if_pos broken, if_pos sunk]
      refine iff_of_false ?_ (not_lt.mpr sunk)
      rintro ⟨reason, returned⟩
      cases returned
    · refine iff_of_true ?_ afloat
      rw [if_neg (not_le.mpr afloat)]
      split
      · exact ⟨_, rfl⟩
      · split
        · exact ⟨_, rfl⟩
        · exact ⟨_, rfl⟩

/-- The check of a marked session of a funded account returns exactly when it has what it
needs. -/
theorem haltCheck_returns_iff {world : World zone} {day : Int}
    {row : EquityRow} (funded : 0 < account.ledger.initialCash)
    (marked : account.equity.lookup day = some row) :
    (∃ next, haltCheck world account day = .ok next) ↔ account.Checkable day := by
  unfold haltCheck Account.Checkable
  rw [← or_assoc]
  by_cases stopped : account.settings.status = .halted ∨ account.settings.status = .retired
  · rw [if_pos stopped]
    exact iff_of_true ⟨_, rfl⟩ (.inl stopped)
  · rw [if_neg stopped, or_iff_right stopped, marked, ← haltReason_returns_iff funded marked]
    dsimp only
    cases decided : haltReason account day row.equity with
    | error raised =>
      refine iff_of_false ?_ ?_
      · rintro ⟨next, returned⟩
        cases returned
      · rintro ⟨reason, returned⟩
        cases returned
    | ok reason =>
      refine iff_of_true ?_ ⟨reason, rfl⟩
      cases reason with
      | none => exact ⟨_, rfl⟩
      | some reason =>
        rw [not_or] at stopped
        change ∃ next, haltAccount { account with updatedAt := world.now } reason world.now =
          .ok next
        unfold haltAccount
        dsimp only
        split
        · rename_i retired
          exact absurd retired stopped.2
        · exact ⟨_, rfl⟩
        · exact ⟨_, rfl⟩
        · exact ⟨_, rfl⟩
        · exact ⟨_, rfl⟩

/-- Every call keeps the initial cash. -/
theorem step_initialCash (account : Account) (operation : Operation zone) :
    (step account operation).ledger.initialCash = account.ledger.initialCash := by
  rcases step_folds account operation with same | ⟨world, stop, mutation, folded, call, done, books,
    -⟩
  · exact congrArg (fun books : Book × LedgerTables => books.2.initialCash) same
  · obtain ⟨_, _, done⟩ := bind_ok.mp done
    obtain ⟨changed, mutated, done⟩ := bind_ok.mp done
    obtain ⟨looped, loop, finished⟩ := bind_ok.mp done
    obtain ⟨opened, plan, opens, -⟩ := foldLoop_ok loop
    have ledger : (step account operation).ledger = looped.ledger :=
      (congrArg Prod.snd books).trans (congrArg Prod.snd (finishFold_supervised finished).books)
    have opening : opened.ledger.initialCash = changed.ledger.initialCash := by
      obtain ⟨_, _, _, _, rfl, _⟩ := openFold_ok opens
      rfl
    obtain ⟨_, tables, -, -⟩ := call.mutates mutated
    rw [ledger, (foldLoop_appended opens loop).initialCash, opening, tables]

theorem createAccount_funded {spec : Spec} {capital : ℚ} {source : PriceSource}
    {rule : DayTradeRule} {allowShort : Bool} {now : Int}
    (created : createAccount zone spec capital source rule allowShort now = .ok account) :
    0 < account.ledger.initialCash := by
  unfold createAccount at created
  split at created
  · rename_i valid
    cases created
    have offered : capital ∈ tiers := by
      simp only [validSpec, Bool.and_eq_true] at valid
      simpa using valid.1.1.1.1.1.1
    have positive : ∀ tier ∈ tiers, 0 < tier := by
      unfold tiers
      simp
    exact positive capital offered
  · cases created

/-- In every state that calls reach from a created account, the halt check of a marked session
returns exactly when the account is stopped already, a fresh mismatch decides, or some mark
since the last resumption is positive. -/
theorem haltCheck_reached_iff {spec : Spec} {capital : ℚ} {source : PriceSource}
    {rule : DayTradeRule} {allowShort : Bool} {now : Int} {account : Account}
    (created : createAccount zone spec capital source rule allowShort now = .ok account)
    (operations : List (Operation zone)) :
    ∀ reached ∈ states step account operations, ∀ (world : World zone) (day : Int)
      (row : EquityRow), reached.equity.lookup day = some row →
      ((∃ next, haltCheck world reached day = .ok next) ↔ reached.Checkable day) := by
  have funded : ∀ reached ∈ states step account operations, 0 < reached.ledger.initialCash := by
    refine states_invariant (fun state : Account => 0 < state.ledger.initialCash) ?_ ?_ operations
    · intro state operation positive
      rw [step_initialCash]
      exact positive
    · exact createAccount_funded created
  intro reached member world day row marked
  exact haltCheck_returns_iff (funded reached member) marked

/-- The nightly check of funded and marked accounts returns exactly when every active one can
be checked. -/
theorem checkAll_returns_iff {world : World zone} {accounts : List Account} {day : Int}
    (funded : ∀ account ∈ accounts, 0 < account.ledger.initialCash)
    (marked : ∀ account ∈ accounts, ∃ row, account.equity.lookup day = some row) :
    (∃ checked, checkAll world accounts day = .ok checked) ↔
      ∀ account ∈ accounts, account.settings.status = .active → account.Checkable day := by
  constructor
  · rintro ⟨checked, returned⟩ account listed active
    obtain ⟨next, -, own⟩ := mapM_value returned account listed
    rw [if_pos active] at own
    obtain ⟨row, stored⟩ := marked account listed
    exact (haltCheck_returns_iff (funded account listed) stored).mp ⟨next, own⟩
  · intro checkable
    obtain ⟨checked, returned, -⟩ := mapM_ok fun account listed => by
      show ∃ next, (if account.settings.status = .active then haltCheck world account day
        else .ok account) = .ok next
      split
      · rename_i active
        obtain ⟨row, stored⟩ := marked account listed
        exact (haltCheck_returns_iff (funded account listed) stored).mpr
          (checkable account listed active)
      · exact ⟨_, rfl⟩
    exact ⟨checked, returned⟩

/-- Every price triples on a Wednesday. -/
def spikePrice (day : Int) : ℚ :=
  if 739770 ≤ day then 30 else 10

theorem spikePrice_positive (day : Int) : 0 < spikePrice day := by
  unfold spikePrice
  split <;> norm_num

/-- The world of that week, in which everything can be borrowed. -/
def spikingWorld (day hours : Int) : World daylightTime :=
  { sampleWorld day hours with
    market := { (steadyMarket 10 ten_positive : Market daylightTime) with
      dailyBar := fun _ _ date _ => some ⟨spikePrice date, spikePrice date,
        spikePrice_positive date, spikePrice_positive date⟩
      medianDollarVolume := fun _ _ _ _ => some 100000000
      latestClose := fun _ _ date strict _ =>
        let seen := if strict then previousSession date else date
        some (seen, spikePrice seen)
      latestClose_positive := by
        intro _ _ date strict _ observed found
        cases found
        exact spikePrice_positive _ } }

/-- A short sale before the spike, and a resumption after it. -/
def shortAndResumed : List (Operation daylightTime) :=
  [.submit (spikingWorld 739768 22) (sampleIntent "entry" "SYM" .short 900 739768),
    .settle (spikingWorld 739770 22) 739770, .resume (spikingWorld 739770 23) true]

/-- Before it is resumed, the account can be checked: it is halted. -/
theorem shorted_checked : ∃ row next,
    ((shortAndResumed.take 2).foldl step sampleAccount).equity.lookup 739770 = some row ∧
      haltCheck (spikingWorld 739770 23) ((shortAndResumed.take 2).foldl step sampleAccount)
        739770 = .ok next := by
  have outcome : (((shortAndResumed.take 2).foldl step sampleAccount).equity.lookup
      739770).isSome = true ∧
      ((shortAndResumed.take 2).foldl step sampleAccount).settings.status = .halted := by
    decide +kernel
  obtain ⟨row, marked⟩ := Option.isSome_iff_exists.mp outcome.1
  obtain ⟨next, returned⟩ := (haltCheck_reached_iff sampleAccount_created (shortAndResumed.take 2)
    _ (last_mem_states _ _ _) (spikingWorld 739770 23) 739770 row marked).mpr (.inl outcome.2)
  exact ⟨row, next, marked, returned⟩

theorem halted_checkAll :
    (∃ checked, checkAll (spikingWorld 739770 23)
      [(shortAndResumed.take 2).foldl step sampleAccount] 739770 = .ok checked) ↔
      ∀ account ∈ [(shortAndResumed.take 2).foldl step sampleAccount],
        account.settings.status = .active → account.Checkable 739770 := by
  have outcome : 0 < ((shortAndResumed.take 2).foldl step sampleAccount).ledger.initialCash ∧
      (((shortAndResumed.take 2).foldl step sampleAccount).equity.lookup 739770).isSome = true := by
    decide +kernel
  refine checkAll_returns_iff ?_ ?_
  · simpa using outcome.1
  · simpa using Option.isSome_iff_exists.mp outcome.2

/-- The account resumed with a negative equity cannot be checked. -/
theorem resumed_uncheckable : ¬∀ (operations : List (Operation daylightTime)),
    ∀ reached ∈ states step sampleAccount operations, ∀ (world : World daylightTime) (day : Int)
      (row : EquityRow), reached.equity.lookup day = some row →
      ∃ next, haltCheck world reached day = .ok next := by
  intro every
  have outcome : ((shortAndResumed.foldl step sampleAccount).equity.lookup 739770).isSome = true ∧
      (haltCheck (spikingWorld 739770 23) (shortAndResumed.foldl step sampleAccount)
        739770).isOk = false := by
    decide +kernel
  obtain ⟨row, marked⟩ := Option.isSome_iff_exists.mp outcome.1
  obtain ⟨next, returned⟩ := every shortAndResumed _ (last_mem_states _ _ _)
    (spikingWorld 739770 23) 739770 row marked
  have raised := outcome.2
  rw [returned] at raised
  cases raised

end TradingEngine.Accounts
