import TradingEngine.BarReaders
import TradingEngine.AccountService

/-!
# The units of an account's marks

The reconciler decides for each captured split whether the stored bars are already on its
scale. A mark observed before a split's ex-date is divided by its ratio unless the split was
applied with a break after the observation. Where the source had restated its history
itself, or the break lies on or before the observed date, the bar is on the new scale and is
divided all the same.
-/

namespace TradingEngine.Accounts

open KeyedTables OrderTypes Nyse Ledger Costs Fills BarSources PriceStore

variable {zone : Zone}

/-- Every captured split of an instrument is decided: applied at a break, or found restated. -/
def SplitsDecided (history : History) (account : Account) (ticker : Ticker) (day : Int) : Prop :=
  ∀ ex, (account.ledger.splits.lookup (ticker, ex)).isSome → ex ≤ day →
    ∃ adjustment, history.adjustments.lookup (ticker, ex) = some adjustment ∧
      (adjustment.outcome = .applied ∧ adjustment.breakDate.isSome ∨
        adjustment.outcome = .noopRestated)

/-- Whether the bars of a date are on a split's scale without being known to be: the history
was restated by its source, or the scale broke on or before the date. -/
def restatedUnnoticed (history : History) (ticker : Ticker) (ex observed : Int) : Bool :=
  (history.adjustments.lookup (ticker, ex)).any fun adjustment =>
    decide (adjustment.outcome = .noopRestated) ||
      adjustment.breakDate.any fun breakDate => decide (breakDate ≤ observed)

/-- The captured splits between an observed date and a day whose scale the observation is
on already. -/
def dividedAgain (history : History) (account : Account) (ticker : Ticker) (day observed : Int) :
    List (Σ _ : Ticker × Int, SplitRatio) :=
  account.ledger.splits.entries.filter fun row =>
    decide (row.1.1 = ticker) && decide (row.1.2 ≤ day) && decide (observed < row.1.2) &&
      restatedUnnoticed history ticker row.1.2 observed

theorem foldl_div (rows : List (Σ _ : Ticker × Int, SplitRatio)) (price : ℚ) :
    rows.foldl (fun price row => price / row.2.value) price =
      price / (rows.map fun row => row.2.value).prod := by
  induction rows generalizing price with
  | nil => simp
  | cons row rest ih =>
    rw [List.foldl_cons, ih, List.map_cons, List.prod_cons, div_div]

theorem prod_ratios_pos (rows : List (Σ _ : Ticker × Int, SplitRatio)) :
    0 < (rows.map fun row => row.2.value).prod := by
  induction rows with
  | nil => simp
  | cons row rest ih =>
    rw [List.map_cons, List.prod_cons]
    exact mul_pos row.2.positive ih

/-- A decided split that is not seen as adjusted is one whose scale is already reached. -/
theorem splitAdjusted_not_iff {history : History} {account : Account} {ticker : Ticker}
    {day ex observed : Int} (decided : SplitsDecided history account ticker day)
    (captured : (account.ledger.splits.lookup (ticker, ex)).isSome) (past : ex ≤ day) :
    history.splitAdjusted ticker ex observed = !restatedUnnoticed history ticker ex observed := by
  obtain ⟨adjustment, known, outcome⟩ := decided ex captured past
  unfold History.splitAdjusted restatedUnnoticed
  rw [known]
  rcases outcome with ⟨applied, broken⟩ | restated
  · obtain ⟨breakDate, date⟩ := Option.isSome_iff_exists.mp broken
    by_cases later : observed < breakDate
    · simp [applied, date, later]
    · simp [applied, date, later, not_lt.mp later]
  · simp [restated]

/-- A price of the operational bars is divided by the ratios of the splits whose scale it
is on already. -/
theorem splitMark_daily {history : History} {rest : Market zone} {account : Account}
    {ticker : Ticker} {day : Int} (decided : SplitsDecided history account ticker day)
    {seen : Mark} (daily : seen.source = .daily .prices) :
    splitMark (history.market rest) account.ledger.splits ticker day seen =
      { seen with price := seen.price /
          ((dividedAgain history account ticker day (dateOf seen.observedAt)).map
            fun row => row.2.value).prod } := by
  unfold splitMark
  dsimp only
  rw [foldl_div]
  congr 4
  refine List.filter_congr fun row listed => ?_
  rw [decide_eq_true daily, Bool.true_and]
  by_cases concerned : row.1.1 = ticker ∧ row.1.2 ≤ day
  · obtain ⟨named, past⟩ := concerned
    have captured : (account.ledger.splits.lookup (ticker, row.1.2)).isSome := by
      rw [← named]
      exact AList.lookup_isSome.mpr (AList.mem_keys.mpr (List.mem_map_of_mem listed))
    change (_ && !history.splitAdjusted ticker row.1.2 (dateOf seen.observedAt)) = _
    rw [splitAdjusted_not_iff decided captured past, Bool.not_not]
  · rcases not_and_or.mp concerned with other | later
    · simp [other]
    · simp [later]

/-- A price of the session itself is not divided. -/
theorem splitMark_today {market : Market zone} {splits : Table (Ticker × Int) SplitRatio}
    {ticker : Ticker} {day : Int} {seen : Mark} (today : dateOf seen.observedAt = day) :
    splitMark market splits ticker day seen = seen := by
  unfold splitMark
  have none : (splits.entries.filter fun row => decide (row.1.1 = ticker) &&
      decide (row.1.2 ≤ day) && decide (dateOf seen.observedAt < row.1.2) &&
      !(decide (seen.source = .daily .prices) &&
        market.splitAdjusted ticker row.1.2 (dateOf seen.observedAt))) = [] := by
    rw [List.filter_eq_nil_iff]
    intro row _
    rw [today]
    by_cases past : row.1.2 ≤ day
    · simp [not_lt.mpr past]
    · simp [past]
  rw [none]
  rfl

/-- An observation is a close of the operational bars or a minute of the session, and its
price is positive. -/
theorem observation_cases {market : Market zone} {source : PriceSource} {ticker : Ticker}
    {day stamp : Int} {availableAt : Option Int} {seen : Mark}
    (observed : observation market source ticker day stamp availableAt = some seen) :
    (seen.source = .daily source ∨ dateOf seen.observedAt = day) ∧ 0 < seen.price := by
  have close : ∀ seen : Mark, (market.latestClose source ticker day (stamp < closed zone day)
      availableAt).map (fun seen => Mark.mk seen.2 (closed zone seen.1) (seen.1 < day)
        (.daily source)) = some seen → (seen.source = .daily source ∨
          dateOf seen.observedAt = day) ∧ 0 < seen.price := by
    intro seen read
    obtain ⟨found, stored, rfl⟩ := Option.map_eq_some_iff.mp read
    exact ⟨.inl rfl, market.latestClose_positive _ _ _ _ _ _ stored⟩
  unfold observation at observed
  dsimp only at observed
  split at observed
  · split at observed
    · rename_i bar last
      cases observed
      have listed := List.mem_of_mem_filter (List.mem_of_getLast? last)
      obtain ⟨after, before⟩ := market.minutes_within _ _ _ _ bar listed
      exact ⟨.inr (dateOf_traded after before), bar.positive.2.2.2⟩
    · exact close seen observed
  · exact close seen observed

/-- A mark returns the price it observes exactly when the ratios of the captured splits
whose scale that price is on already cancel. -/
theorem mark_unchanged_iff {history : History} {rest : Market zone} {account : Account}
    {ticker : Ticker} {day : Int} {asOf availableAt : Option Int} {seen : Mark}
    (source : account.settings.priceSource = .prices)
    (decided : SplitsDecided history account ticker day)
    (observed : observation (history.market rest) .prices ticker day
      (asOf.getD (closed zone day)) availableAt = some seen) :
    mark (history.market rest) account ticker day asOf availableAt = .ok seen ↔
      ((dividedAgain history account ticker day (dateOf seen.observedAt)).map
        fun row => row.2.value).prod = 1 := by
  obtain ⟨kind, positive⟩ := observation_cases observed
  have marked : mark (history.market rest) account ticker day asOf availableAt =
      .ok (splitMark (history.market rest) account.ledger.splits ticker day seen) := by
    unfold mark
    rw [source]
    dsimp only
    rw [observed]
  rw [marked, Except.ok.injEq]
  rcases kind with daily | today
  · rw [splitMark_daily decided daily]
    have ratios := prod_ratios_pos
      (dividedAgain history account ticker day (dateOf seen.observedAt))
    constructor
    · intro same
      have price : seen.price / _ = seen.price := congrArg Mark.price same
      exact mul_left_cancel₀ positive.ne'
        (((div_eq_iff ratios.ne').mp price).symm.trans (mul_one _).symm)
    · intro cancelled
      rw [cancelled, div_one]
  · rw [splitMark_today today, today]
    refine iff_of_true rfl ?_
    have none : dividedAgain history account ticker day day = [] := by
      unfold dividedAgain
      rw [List.filter_eq_nil_iff]
      intro row _
      by_cases past : row.1.2 ≤ day
      · simp [not_lt.mpr past]
      · simp [past]
    rw [none]
    rfl

/-- One close of fifty dollars, on the day before a two-for-one split that is decided. -/
def restatedHistory (outcome : PriceStore.Outcome) (breakDate : Option Date) : History where
  prices := (∅ : Table Key Row).insert ("XYZ", 739900)
    ⟨⟨.number 50, .number 50, .number 50, .number 50, .number 1000⟩, "", none, none⟩
  adjustments := (∅ : Table Key Adjustment).insert ("XYZ", 739901)
    ⟨2, outcome, none, breakDate, 0, 0⟩
  freeDailyBars := []
  intradayPrices := []
  massiveMinuteBars := []

/-- The split is captured for an account. -/
def splitAccount : Account :=
  { sampleAccount with
    ledger := { sampleAccount.ledger with
      splits := (∅ : Table (Ticker × Int) SplitRatio).insert ("XYZ", 739901) ⟨2, two_positive⟩ } }

/-- That close, seen at the open of the ex-date. -/
def carriedClose : Mark := ⟨50, closed daylightTime 739900, true, .daily .prices⟩

theorem splitAccount_decided {outcome : PriceStore.Outcome} {breakDate : Option Date}
    (decision : outcome = .applied ∧ breakDate.isSome ∨ outcome = .noopRestated) :
    SplitsDecided (restatedHistory outcome breakDate) splitAccount "XYZ" 739901 := by
  intro ex captured _
  obtain rfl : ex = 739901 := by
    by_contra other
    have apart : (("XYZ", ex) : Ticker × Int) ≠ ("XYZ", 739901) := by simpa using other
    have missing : splitAccount.ledger.splits.lookup ("XYZ", ex) = none :=
      AList.lookup_insert_ne apart
    rw [missing] at captured
    cases captured
  exact ⟨_, AList.lookup_insert _, decision⟩

theorem carriedClose_observed (outcome : PriceStore.Outcome) (breakDate : Option Date) :
    observation ((restatedHistory outcome breakDate).market
      (steadyMarket 50 (by norm_num) : Market daylightTime)) .prices "XYZ" 739901
      (opened daylightTime 739901) none = some carriedClose := by
  have known : observation ((restatedHistory .applied none).market
      (steadyMarket 50 (by norm_num) : Market daylightTime)) .prices "XYZ" 739901
      (opened daylightTime 739901) none = some carriedClose := by
    decide +kernel
  exact known

/-- A split with a later break leaves the close as it is. -/
theorem laterBreak_unchanged :
    mark ((restatedHistory .applied (some 739903)).market
      (steadyMarket 50 (by norm_num) : Market daylightTime)) splitAccount "XYZ" 739901
      (some (opened daylightTime 739901)) none = .ok carriedClose :=
  (mark_unchanged_iff rfl (splitAccount_decided (.inl ⟨rfl, rfl⟩))
    (carriedClose_observed .applied (some 739903))).mpr (by decide +kernel)

/-- A close that its source had restated is halved. -/
theorem restatedClose_halved :
    ¬∀ (zone : Zone) (history : History) (rest : Market zone) (account : Account)
      (ticker : Ticker) (day : Int) (asOf availableAt : Option Int) (seen : Mark),
      account.settings.priceSource = .prices → SplitsDecided history account ticker day →
      observation (history.market rest) .prices ticker day (asOf.getD (closed zone day))
        availableAt = some seen →
      mark (history.market rest) account ticker day asOf availableAt = .ok seen := by
  intro every
  have kept := every daylightTime (restatedHistory .noopRestated none)
    (steadyMarket 50 (by norm_num)) splitAccount "XYZ" 739901
    (some (opened daylightTime 739901)) none carriedClose rfl (splitAccount_decided (.inr rfl))
    (carriedClose_observed .noopRestated none)
  have halved : (mark ((restatedHistory .noopRestated none).market
      (steadyMarket 50 (by norm_num) : Market daylightTime)) splitAccount "XYZ" 739901
      (some (opened daylightTime 739901)) none).map Mark.price = .ok 25 := by
    decide +kernel
  rw [kept] at halved
  revert halved
  decide +kernel

end TradingEngine.Accounts
