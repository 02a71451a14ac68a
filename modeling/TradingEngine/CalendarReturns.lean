import TradingEngine.StudyTrades

/-!
# The calendar series of an event study

A ledger books the profit of every trade at the session of its exit and divides the
days of its window by the capital. The series adds up to the profit of the trades
unless a trade is dated on a day that is no session of the window. Only a delisting
dates a trade otherwise: at the last usable close from the entry to the end of the
listing, or at the last listed day where there is none, whatever day that is.
-/

namespace TradingEngine.Study

open Runs

variable {Account : Type}

/-- Adds to the profit of one session. A day without an entry raises. -/
def addPnl (pnl : List (Date × ℚ)) (entry : Date × ℚ) : Except StudyError (List (Date × ℚ)) :=
  if entry.1 ∈ pnl.map Prod.fst then
    .ok (pnl.map fun row => if row.1 = entry.1 then (row.1, row.2 + entry.2) else row)
  else .error .raised

/-- The profits of the sessions, divided by the capital. -/
def calendarDaySeries (days : List Date) (pnlBySession : List (Date × ℚ)) (capital : ℚ) :
    Except StudyError (List ℚ) :=
  if ¬ days.Pairwise (· < ·) ∨ capital ≤ 0 then
    .error (.value "calendar sessions must be sorted and capital positive")
  else if ¬ ∀ row ∈ pnlBySession, row.1 ∈ days then
    .error (.value "PnL outside the calendar window")
  else .ok (days.map fun day => (pnlBySession.lookup day).getD 0 / capital)

/-- The profit of a trade at the session of its exit. -/
def Trade.pnl (netReturn : Account → ℚ) (trade : Trade Account) : Date × ℚ :=
  (trade.exit.session, netReturn trade.account * trade.position.holding.notional)

def TradeLedger.calendarReturns (netReturn : Account → ℚ) (capital : ℚ)
    (ledger : TradeLedger Account) : Except StudyError (List ℚ) :=
  ((ledger.trades.map (Trade.pnl netReturn)).foldlM addPnl (ledger.days.map (·, 0))).bind
    fun pnl => calendarDaySeries ledger.days pnl capital

/-- The series exists, and times the capital it adds up to the profit of the trades. -/
def TradeLedger.Conserves (netReturn : Account → ℚ) (capital : ℚ) (ledger : TradeLedger Account) :
    Prop :=
  ∃ series, ledger.calendarReturns netReturn capital = .ok series ∧
    series.sum * capital =
      (ledger.trades.map fun trade =>
        netReturn trade.account * trade.position.holding.notional).sum

theorem addPnl_ok {pnl next : List (Date × ℚ)} {entry : Date × ℚ} :
    addPnl pnl entry = .ok next ↔ entry.1 ∈ pnl.map Prod.fst ∧
      pnl.map (fun row => if row.1 = entry.1 then (row.1, row.2 + entry.2) else row) = next := by
  unfold addPnl
  split <;> simp_all

theorem addPnl_days {pnl next : List (Date × ℚ)} {entry : Date × ℚ}
    (added : addPnl pnl entry = .ok next) : next.map Prod.fst = pnl.map Prod.fst := by
  obtain ⟨-, rfl⟩ := Iff.mp addPnl_ok added
  rw [List.map_map]
  apply List.map_congr_left
  intro row _
  simp only [Function.comp_apply]
  split <;> rfl

/-- An entry adds to the total of the table. -/
theorem addPnl_total {pnl next : List (Date × ℚ)} (distinct : (pnl.map Prod.fst).Nodup)
    {entry : Date × ℚ} (added : addPnl pnl entry = .ok next) :
    (next.map Prod.snd).sum = (pnl.map Prod.snd).sum + entry.2 := by
  obtain ⟨listed, rfl⟩ := Iff.mp addPnl_ok added
  clear added
  induction pnl with
  | nil => cases listed
  | cons first rest ih =>
    obtain ⟨fresh, others⟩ := List.nodup_cons.mp distinct
    by_cases here : first.1 = entry.1
    · have untouched : rest.map (fun row =>
          if row.1 = entry.1 then (row.1, row.2 + entry.2) else row) = rest := by
        conv_rhs => rw [← List.map_id rest]
        apply List.map_congr_left
        intro row member
        refine if_neg fun same => fresh ?_
        rw [here, ← same]
        exact List.mem_map_of_mem member
      simp only [List.map_cons, here, if_true, List.sum_cons, untouched]
      ring
    · have later : entry.1 ∈ rest.map Prod.fst := by
        rcases List.mem_cons.mp listed with same | later
        · exact absurd same.symm here
        · exact later
      simp only [List.map_cons, here, if_false, List.sum_cons]
      rw [ih others later]
      ring

theorem lookup_values {pnl : List (Date × ℚ)} (distinct : (pnl.map Prod.fst).Nodup) :
    (pnl.map Prod.fst).map (fun day => (pnl.lookup day).getD 0) = pnl.map Prod.snd := by
  induction pnl with
  | nil => rfl
  | cons first rest ih =>
    obtain ⟨fresh, others⟩ := List.nodup_cons.mp distinct
    have later : (rest.map Prod.fst).map (fun day => (((first :: rest).lookup day).getD 0)) =
        (rest.map Prod.fst).map fun day => (rest.lookup day).getD 0 := by
      apply List.map_congr_left
      intro day member
      have differs : (day == first.1) = false :=
        beq_eq_false_iff_ne.mpr fun same => fresh (same ▸ member)
      rw [List.lookup_cons, differs]
    rw [List.map_cons, List.map_cons, List.map_cons, later, ih others,
      List.lookup_cons, beq_self_eq_true]
    rfl

/-- A fold over entries whose days are in the table succeeds, and adds them up. -/
theorem foldlM_addPnl {pnl : List (Date × ℚ)} (distinct : (pnl.map Prod.fst).Nodup)
    (entries : List (Date × ℚ)) (listed : ∀ entry ∈ entries, entry.1 ∈ pnl.map Prod.fst) :
    ∃ final, entries.foldlM addPnl pnl = .ok final ∧
      final.map Prod.fst = pnl.map Prod.fst ∧
      (final.map Prod.snd).sum = (pnl.map Prod.snd).sum + (entries.map Prod.snd).sum := by
  induction entries generalizing pnl with
  | nil => exact ⟨pnl, rfl, rfl, by simp⟩
  | cons entry rest ih =>
    obtain ⟨next, added⟩ : ∃ next, addPnl pnl entry = .ok next :=
      ⟨_, Iff.mpr addPnl_ok ⟨listed entry List.mem_cons_self, rfl⟩⟩
    have days := addPnl_days added
    have total := addPnl_total distinct added
    obtain ⟨final, folded, same, sum⟩ := ih (days ▸ distinct) (by
      intro other later
      rw [days]
      exact listed other (List.mem_cons_of_mem _ later))
    refine ⟨final, foldlM_cons_ok.mpr ⟨next, added, folded⟩, same.trans days, ?_⟩
    rw [sum, total, List.map_cons, List.sum_cons]
    ring

/-- A fold that succeeds found the day of every entry in the table. -/
theorem foldlM_addPnl_listed {pnl final : List (Date × ℚ)} {entries : List (Date × ℚ)}
    (folded : entries.foldlM addPnl pnl = .ok final) :
    ∀ entry ∈ entries, entry.1 ∈ pnl.map Prod.fst := by
  induction entries generalizing pnl with
  | nil =>
    intro entry none
    cases none
  | cons first rest ih =>
    obtain ⟨next, added, folded⟩ := foldlM_cons_ok.mp folded
    intro entry member
    rcases List.mem_cons.mp member with rfl | later
    · exact (Iff.mp addPnl_ok added).1
    · rw [← addPnl_days added]
      exact ih folded entry later

/-- The series adds up exactly if every trade is dated on a session of the ledger. -/
theorem conserves_iff (netReturn : Account → ℚ) {capital : ℚ} (positive : 0 < capital)
    {ledger : TradeLedger Account} (sorted : ledger.days.Pairwise (· < ·)) :
    ledger.Conserves netReturn capital ↔ ∀ trade ∈ ledger.trades, trade.exit.session ∈ ledger.days := by
  have keyed : (ledger.days.map (·, (0 : ℚ))).map Prod.fst = ledger.days := by
    simp [List.map_map, Function.comp_def]
  have distinct : ((ledger.days.map (·, (0 : ℚ))).map Prod.fst).Nodup := by
    rw [keyed]
    exact sorted.imp fun before => ne_of_lt before
  constructor
  · rintro ⟨series, returned, -⟩ trade member
    obtain ⟨pnl, folded, -⟩ := bind_ok.mp returned
    have listed := foldlM_addPnl_listed folded (trade.pnl netReturn) (List.mem_map_of_mem member)
    rwa [keyed] at listed
  · intro dated
    obtain ⟨pnl, folded, same, total⟩ := foldlM_addPnl distinct
      (ledger.trades.map (Trade.pnl netReturn)) (by
        intro entry member
        obtain ⟨trade, recorded, rfl⟩ := List.mem_map.mp member
        rw [keyed]
        exact dated trade recorded)
    have days := same.trans keyed
    have inside : ∀ row ∈ pnl, row.1 ∈ ledger.days := by
      intro row member
      rw [← days]
      exact List.mem_map_of_mem member
    have booked : calendarDaySeries ledger.days pnl capital =
        .ok (ledger.days.map fun day => (pnl.lookup day).getD 0 / capital) := by
      unfold calendarDaySeries
      rw [if_neg (by simp [sorted, positive]), if_neg (by simpa using inside)]
    refine ⟨_, bind_ok.mpr ⟨pnl, folded, booked⟩, ?_⟩
    have values := lookup_values (same ▸ distinct : (pnl.map Prod.fst).Nodup)
    rw [days] at values
    calc (ledger.days.map fun day => (pnl.lookup day).getD 0 / capital).sum * capital
        = (ledger.days.map fun day => (pnl.lookup day).getD 0).sum := by
          rw [← List.sum_map_mul_right]
          exact congrArg List.sum (List.map_congr_left fun day _ =>
            div_mul_cancel₀ _ (ne_of_gt positive))
      _ = (pnl.map Prod.snd).sum := by rw [values]
      _ = _ := by
          rw [total, List.map_map, List.map_map]
          simp [Function.comp_def, Trade.pnl]

/-- The day on which a delisting closes a position. -/
def delistedOn (source : PriceSource) (listed : Universe) (position : OpenPosition) : Option Date :=
  (delistingExit source listed position.holding.ticker position.holding.entrySession
    position.holding.entryPrice).map DelistingExit.session

def EventStrategy.capital (strategy : EventStrategy) (slotNotional : ℚ) : ℚ :=
  strategy.maxConcurrent * slotNotional

variable {strategy : EventStrategy} {source : PriceSource} {listed : Universe}
  {account : OpenPosition → Exit → Except StudyError Account}

/-- The series of a study adds up to the profit of its trades if and only if every trade
that a delisting closed is dated on a session of the window. -/
theorem simulateEvents_conserves {window : Window} {ledger : TradeLedger Account}
    (netReturn : Account → ℚ) {slotNotional : ℚ} (slots : 1 ≤ strategy.maxConcurrent)
    (notional : 0 < slotNotional)
    (ran : simulateEvents strategy source listed account window = .ok ledger) :
    ledger.Conserves netReturn (strategy.capital slotNotional) ↔
      ∀ trade ∈ ledger.trades, trade.exit.reason.delists = true →
        ∀ day ∈ delistedOn source listed trade.position, day ∈ ledger.days := by
  have positive : 0 < strategy.capital slotNotional := by
    have some_ : (0 : ℚ) < strategy.maxConcurrent := Nat.cast_pos.mpr slots
    exact mul_pos some_ notional
  rw [conserves_iff netReturn positive (simulateEvents_days ran).2]
  have dated : ∀ trade ∈ ledger.trades, trade.exit.reason.delists = true →
      delistedOn source listed trade.position = some trade.exit.session := by
    intro trade member delists
    obtain ⟨entryIndex, traded⟩ := simulateEvents_traded ran trade member
    obtain ⟨delist, known, same, -⟩ := traded.delisted delists
    rw [delistedOn, known, same]
    rfl
  constructor
  · intro sessions trade member delists day closed
    rw [dated trade member delists] at closed
    cases closed
    exact sessions trade member
  · intro delistings trade member
    cases delists : trade.exit.reason.delists with
    | true => exact delistings trade member delists _ (dated trade member delists)
    | false =>
      obtain ⟨entryIndex, traded⟩ := simulateEvents_traded ran trade member
      exact traded.session delists

section Samples

/-- Four sessions with two days off after the second. A ticker has an open price on the
first two sessions only, and perhaps a close. -/
def brokenSource (close : Option ℚ) : PriceSource where
  sessions := [1, 2, 5, 6]
  ordered := by decide
  present := fun _ day => day ≤ 2
  value := fun _ day field =>
    if 2 < day then none else match field with
      | .open_ => some 10
      | .close => close
      | .barClose _ => none
  tickers := ["A"]
  sessionOpen := 570
  sessionClose := 960

/-- Bought at the second open and to be sold after another session. -/
def brokenStrategy : EventStrategy where
  decisionTime := .preOpen
  orders := fun session => .ok (if session = 2 then
    [⟨"A", .long, .openAuction, .afterNSessions 1 .closeAuction, 100, none, none⟩] else [])
  maxConcurrent := 1
  maxNewPerSession := 1
  orderSortKey := [⟨.ticker, false⟩]
  openAsIndication := false
  closeAsIndication := false
  alreadyHeld := .reject
  windowEnd := .forceClose
  requireCompletePath := false

/-- The ticker is listed through the first day off. -/
def brokenListing : Universe := ⟨some [("A", ⟨1, some 3⟩)], -3 / 10⟩

def brokenRun (close : Option ℚ) : Except StudyError (TradeLedger ℚ) :=
  simulateEvents brokenStrategy (brokenSource close) brokenListing
    (fun position exit => .ok (exit.price / position.holding.entryPrice - 1)) (.span 1 6)

/-- With a close on the second session, the loss is booked there. -/
theorem lastClose_conserves :
    ∃ ledger, brokenRun (some 8) = .ok ledger ∧
      ledger.Conserves id (brokenStrategy.capital 100) := by
  have dated : (brokenRun (some 8)).map (fun ledger => ledger.trades.all fun trade =>
      (delistedOn (brokenSource (some 8)) brokenListing trade.position).all (· ∈ ledger.days)) =
        .ok true := by decide +kernel
  obtain ⟨ledger, ran, all⟩ := map_ok.mp dated
  refine ⟨ledger, ran, (simulateEvents_conserves id (by decide) (by norm_num) ran).mpr ?_⟩
  intro trade member _ day closed
  have here := List.all_eq_true.mp all trade member
  rw [closed, Option.all_some, decide_eq_true_eq] at here
  exact here

/-- Without one, the trade is dated on the day off, and the series raises. -/
theorem dayOff_raises :
    ¬ ∀ ledger, brokenRun none = .ok ledger →
      ledger.Conserves id (brokenStrategy.capital 100) := by
  intro claimed
  have raises : (brokenRun none).map (fun ledger =>
      ledger.calendarReturns id (brokenStrategy.capital 100)) = .ok (.error .raised) := by
    decide +kernel
  obtain ⟨ledger, ran, raised⟩ := map_ok.mp raises
  obtain ⟨series, returned, -⟩ := claimed ledger ran
  rw [raised] at returned
  cases returned

end Samples

end TradingEngine.Study
