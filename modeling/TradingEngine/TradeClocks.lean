import TradingEngine.CalendarReturns
import TradingEngine.PositionLimits

/-!
# The clocks of a trade

A trade is entered and closed at clock times of sessions. Orders are checked when they
are built: an exit condition that is looked at on the entry session has to be decided
after the entry. Nothing else compares the two clocks. An exit at a fixed time, the
session's close, the close of a delisting and the fallback of a condition on the last
session of the window are all taken on the entry session as well, and each of them may
come before the entry.
-/

namespace TradingEngine.Study

open Runs

variable {Account : Type}

def FillPoint.valid : FillPoint → Bool
  | .barClose minutes => minutes < 24 * 60
  | _ => true

def DecisionTime.valid : DecisionTime → Bool
  | .clock minutes => minutes < 24 * 60
  | _ => true

def ExitRule.valid : ExitRule → Bool
  | .sameSessionClose => true
  | .atTime minutes => minutes < 24 * 60
  | .afterNSessions sessions fill => 1 ≤ sessions ∧ fill.valid
  | .firstCondition sessions fallback decisionTime _ _ =>
    1 ≤ sessions ∧ fallback.valid ∧ decisionTime.valid

/-- The clock that a decision is compared by; there is none before the open. -/
def DecisionTime.nominal : DecisionTime → Option Nat
  | .preOpen => none
  | .atOpen => some 570
  | .atClose => some 960
  | .clock minutes => some minutes

/-- The clock that an entry is compared by. -/
def FillPoint.nominal : FillPoint → Nat
  | .openAuction | .nextOpen => 570
  | .closeAuction => 960
  | .barClose minutes => minutes

/-- A condition that is looked at on the entry session is decided after the entry. -/
def Order.precedes (order : Order) : Bool :=
  match order.exit with
  | .firstCondition _ _ decisionTime .entrySession _ =>
    decisionTime.nominal.any (order.entry.nominal < ·)
  | _ => true

/-- What an order is checked for when it is built. -/
def Order.valid (order : Order) : Bool :=
  order.ticker ≠ "" ∧ 0 < order.notional ∧ (∀ item ∈ order.signal.getD [], item.1 ≠ "") ∧
    order.entry.valid ∧ order.exit.valid ∧ order.precedes

/-- The clock time of a fill. -/
def Field.clock (source : PriceSource) : Field → Nat
  | .open_ => source.sessionOpen
  | .close => source.sessionClose
  | .barClose minutes => minutes

def OpenPosition.entryClock (source : PriceSource) (position : OpenPosition) : Nat :=
  position.order.entry.field.clock source

def Trade.entryInstant (source : PriceSource) (trade : Trade Account) : Date ×ₗ Nat :=
  toLex (trade.position.holding.entrySession, trade.position.entryClock source)

def Trade.exitInstant (source : PriceSource) (trade : Trade Account) : Date ×ₗ Nat :=
  toLex (trade.exit.session, trade.exit.field.clock source)

/-- An exit that is planned for the entry session, or a delisting that is dated on it,
comes before the entry. -/
def Rewinds (strategy : EventStrategy) (source : PriceSource) (listed : Universe)
    (days : List Date) (position : OpenPosition) (entryIndex : Nat) : Prop :=
  ∃ index fill reason actual,
    plannedExit strategy days position entryIndex = .ok (some (index, fill, reason)) ∧
      fillDay days index fill = some actual ∧
      (Delists source listed days position actual fill ∧
          delistedOn source listed position = some position.holding.entrySession ∧
          source.sessionClose < position.entryClock source ∨
        ¬ Delists source listed days position actual fill ∧
          actual = position.holding.entrySession ∧
          (source.value position.holding.ticker actual fill.field).isSome ∧
          fill.field.clock source < position.entryClock source)

section Exits

variable {strategy : EventStrategy} {source : PriceSource} {listed : Universe} {days : List Date}
  {position : OpenPosition} {entryIndex : Nat}

/-- No rule plans an exit before the entry session. -/
theorem Plans.onward {index : Nat} {fill : FillPoint} {reason : ExitReason}
    (plans : Plans days position entryIndex index fill reason) (inside : entryIndex < days.length) :
    entryIndex ≤ index := by
  cases plans with
  | close => exact le_rfl
  | time => exact le_rfl
  | later => exact Nat.le_add_right _ _
  | condition _ checked =>
    split at checked
    · exact checked
    · omega
  | fallback => omega

/-- A delisting is not dated before the entry. -/
theorem delistedOn_onward {day : Date} (closed : delistedOn source listed position = some day) :
    position.holding.entrySession ≤ day := by
  obtain ⟨delist, known, rfl⟩ := Option.map_eq_some_iff.mp closed
  unfold delistingExit at known
  split at known
  · cases known
  split at known
  · cases known
  rename_i last _ held
  split at known
  · rename_i session close last_
    cases known
    unfold lastClose at last_
    have member := List.mem_of_getLast? last_
    obtain ⟨day, listedDay, found⟩ := List.mem_filterMap.mp member
    have bounds := of_decide_eq_true (List.mem_filter.mp listedDay).2
    split at found
    · obtain ⟨_, -, same⟩ := Option.map_eq_some_iff.mp found
      cases same
      exact bounds.1
    · cases found
  · cases known
    exact not_lt.mp held

theorem planned_onward (sorted : days.Pairwise (· < ·)) {index : Nat} {fill : FillPoint}
    {reason : ExitReason} {actual : Date}
    (entered : days[entryIndex]? = some position.holding.entrySession)
    (planned : plannedExit strategy days position entryIndex = .ok (some (index, fill, reason)))
    (filled : fillDay days index fill = some actual) :
    position.holding.entrySession ≤ actual := by
  obtain ⟨inside, -⟩ := List.getElem?_eq_some_iff.mp entered
  have onward := (plannedExit_plans planned).onward inside
  exact (le_iff_index sorted entered filled).mpr (Nat.le_add_right_of_le onward)

theorem rewinds_at {index : Nat} {fill : FillPoint} {reason : ExitReason} {actual : Date}
    (planned : plannedExit strategy days position entryIndex = .ok (some (index, fill, reason)))
    (filled : fillDay days index fill = some actual) :
    Rewinds strategy source listed days position entryIndex ↔
      (Delists source listed days position actual fill ∧
          delistedOn source listed position = some position.holding.entrySession ∧
          source.sessionClose < position.entryClock source ∨
        ¬ Delists source listed days position actual fill ∧
          actual = position.holding.entrySession ∧
          (source.value position.holding.ticker actual fill.field).isSome ∧
          fill.field.clock source < position.entryClock source) := by
  constructor
  · rintro ⟨_, _, _, _, other, day, early⟩
    rw [planned] at other
    cases other
    rw [filled] at day
    cases day
    exact early
  · intro early
    exact ⟨index, fill, reason, actual, planned, filled, early⟩

/-- Two instants are in order unless they fall on one session with the clocks reversed. -/
theorem instants_ordered {first last : Date} (onward : first ≤ last) (early late : Nat) :
    (toLex (first, early) : Date ×ₗ Nat) ≤ toLex (last, late) ↔ ¬ (first = last ∧ late < early) := by
  rw [Prod.Lex.toLex_le_toLex]
  constructor
  · rintro (before | ⟨-, le⟩) ⟨same, less⟩
    · exact absurd same (ne_of_lt before)
    · exact absurd less (not_lt.mpr le)
  · intro apart
    rcases lt_or_eq_of_le onward with before | same
    · exact .inl before
    · exact .inr ⟨same, not_lt.mp fun less => apart ⟨same, less⟩⟩

/-- A trade is closed before it is entered exactly if its exit rewinds. -/
theorem Traded.rewinds_iff {found : Exit} (sorted : days.Pairwise (· < ·))
    (traded : Traded strategy source listed days position entryIndex found) :
    (toLex (position.holding.entrySession, position.entryClock source) : Date ×ₗ Nat) ≤
        toLex (found.session, found.field.clock source) ↔
      ¬ Rewinds strategy source listed days position entryIndex := by
  obtain ⟨index, fill, reason, planned, settled⟩ := exit_found traded.found
  obtain ⟨actual, filled, ⟨delists, delisted⟩ | ⟨listing, named, -, at_⟩⟩ := settleExit_found settled
  · -- the delisting takes the close of its day
    obtain ⟨delist, known, dated, closed, -⟩ := delisted
    have day : delistedOn source listed position = some found.session := by
      rw [delistedOn, known, dated]
      rfl
    rw [instants_ordered (delistedOn_onward day), rewinds_at planned filled, closed, day]
    simp only [delists, true_and, not_true_eq_false, false_and, or_false, Option.some.injEq,
      Field.clock, eq_comm]
  · -- the exit is taken on the planned day, or later where that day has no price
    have onward := planned_onward sorted traded.entered planned filled
    obtain ⟨same, priced⟩ | ⟨-, later, missing⟩ := at_
    · rw [same, named, instants_ordered onward, rewinds_at planned filled]
      simp only [listing, false_and, false_or, not_false_eq_true, true_and, priced, eq_comm]
    · rw [instants_ordered (onward.trans later.le), rewinds_at planned filled]
      simp only [listing, false_and, false_or, not_false_eq_true, missing,
        Option.isSome_none, Bool.false_eq_true, and_false, iff_true]
      rintro ⟨same, -⟩
      exact absurd same (ne_of_lt (lt_of_le_of_lt onward later))

theorem index_unique (sorted : days.Pairwise (· < ·)) {first second : Nat} {day : Date}
    (here : days[first]? = some day) (there : days[second]? = some day) : first = second :=
  le_antisymm ((le_iff_index sorted here there).mp le_rfl)
    ((le_iff_index sorted there here).mp le_rfl)

/-- With sessions from half past nine to four, the clocks are those of the check. -/
theorem FillPoint.clock_nominal (opens : source.sessionOpen = 570)
    (closes : source.sessionClose = 960) (fill : FillPoint) :
    fill.field.clock source = fill.nominal := by
  cases fill with
  | openAuction => exact opens
  | closeAuction => exact closes
  | nextOpen => exact opens
  | barClose minutes => rfl

theorem DecisionTime.clock_nominal (opens : source.sessionOpen = 570)
    (closes : source.sessionClose = 960) {decisionTime : DecisionTime} {fill : FillPoint}
    {minutes : Nat} (decided : decisionTime.fill = some fill)
    (named : decisionTime.nominal = some minutes) : fill.field.clock source = minutes := by
  cases decisionTime with
  | preOpen => cases decided
  | atOpen =>
    cases decided
    cases named
    exact opens
  | atClose =>
    cases decided
    cases named
    exact closes
  | clock _ =>
    cases decided
    cases named
    rfl

/-- The exits of valid orders that can come before the entry: the close of a session whose
entry bar is later, a fixed time, a condition of the entry session where the sessions
keep other hours than the check of the order, and a fallback on the last session. -/
theorem Rewinds.kinds (sorted : days.Pairwise (· < ·)) (valid : position.order.valid = true)
    (entered : days[entryIndex]? = some position.holding.entrySession)
    (rewinds : Rewinds strategy source listed days position entryIndex) :
    source.sessionClose < position.entryClock source ∨
      (∃ minutes, position.order.exit = .atTime minutes ∧
        minutes < position.entryClock source) ∨
      (∃ count fallback decisionTime predicate fill,
        position.order.exit =
            .firstCondition count fallback decisionTime .entrySession predicate ∧
          decisionTime.fill = some fill ∧ fill.field.clock source < position.entryClock source ∧
          ¬ (source.sessionOpen = 570 ∧ source.sessionClose = 960)) ∨
      ∃ count fallback decisionTime firstCheck predicate,
        position.order.exit = .firstCondition count fallback decisionTime firstCheck predicate ∧
          fallback.field.clock source < position.entryClock source ∧
          entryIndex + 1 = days.length := by
  obtain ⟨index, fill, reason, actual, planned, filled, ⟨-, -, early⟩ | ⟨-, rfl, -, early⟩⟩ :=
    rewinds
  · exact .inl early
  have checks := of_decide_eq_true valid
  have same : entryIndex = index + fill.delay := index_unique sorted entered filled
  cases plannedExit_plans planned with
  | close => exact .inl early
  | time rule => exact .inr (.inl ⟨_, rule, early⟩)
  | later rule =>
    -- a valid order waits for one session at least
    have some_ : ExitRule.valid _ = true := rule ▸ checks.2.2.2.2.1
    have one := (of_decide_eq_true some_).1
    omega
  | condition rule checked visited holds decided =>
    split at checked
    · rename_i check
      subst check
      refine .inr (.inr (.inl ⟨_, _, _, _, _, rule, decided, early, ?_⟩))
      rintro ⟨opens, closes⟩
      have before := checks.2.2.2.2.2
      simp only [Order.precedes, rule, Option.any_eq_true, decide_eq_true_eq] at before
      obtain ⟨decision, named, before⟩ := before
      rw [DecisionTime.clock_nominal opens closes decided named, OpenPosition.entryClock,
        FillPoint.clock_nominal opens closes] at early
      omega
    · omega
  | fallback rule =>
    have some_ : ExitRule.valid _ = true := rule ▸ checks.2.2.2.2.1
    have one := (of_decide_eq_true some_).1
    obtain ⟨inside, -⟩ := List.getElem?_eq_some_iff.mp entered
    exact .inr (.inr (.inr ⟨_, _, _, _, _, rule, early, by omega⟩))

end Exits

/-- No trade of a ledger is closed before it is entered if and only if no exit rewinds. -/
theorem simulateEvents_forward {strategy : EventStrategy} {source : PriceSource}
    {listed : Universe} {account : OpenPosition → Exit → Except StudyError Account}
    {window : Window} {ledger : TradeLedger Account}
    (ran : simulateEvents strategy source listed account window = .ok ledger) :
    (∀ trade ∈ ledger.trades, trade.entryInstant source ≤ trade.exitInstant source) ↔
      ∀ trade ∈ ledger.trades, ∀ entryIndex,
        ledger.days[entryIndex]? = some trade.position.holding.entrySession →
          ¬ Rewinds strategy source listed ledger.days trade.position entryIndex := by
  have sorted := (simulateEvents_days ran).2
  apply forall₂_congr
  intro trade member
  obtain ⟨entryIndex, traded⟩ := simulateEvents_traded ran trade member
  have here := traded.rewinds_iff sorted
  constructor
  · intro forward other entered
    obtain rfl := index_unique sorted traded.entered entered
    exact here.mp forward
  · intro none_
    exact here.mpr (none_ entryIndex traded.entered)

section Samples

/-- One order on the first session: bought at the close, and sold at a clock time. -/
def closeOrder (minutes : Nat) : Order :=
  ⟨"A", .long, .closeAuction, .atTime minutes, 100, none, none⟩

theorem closeOrder_asked {minutes : Nat} {session : Date} {orders : List Order} {order : Order}
    (named : (sampleStrategy [closeOrder minutes]).orders session = .ok orders)
    (listed : order ∈ orders) : order = closeOrder minutes := by
  cases named
  split at listed
  · exact List.mem_singleton.mp listed
  · cases listed

def closeRun (minutes : Nat) : Except StudyError (TradeLedger Unit) :=
  simulateEvents (sampleStrategy [closeOrder minutes]) sampleSource ⟨none, 0⟩
    (fun _ _ => .ok ()) (.span 1 3)

/-- Sold two hours after the close. -/
theorem lateExit_forward :
    ∃ ledger, closeRun 1080 = .ok ledger ∧ ∀ trade ∈ ledger.trades,
      trade.entryInstant sampleSource ≤ trade.exitInstant sampleSource := by
  obtain ⟨ledger, ran⟩ : ∃ ledger, closeRun 1080 = .ok ledger := exists_ok (by decide +kernel)
  refine ⟨ledger, ran, (simulateEvents_forward ran).mpr ?_⟩
  intro trade member entryIndex entered rewinds
  obtain ⟨_, traded⟩ := simulateEvents_traded ran trade member
  obtain ⟨session, -, orders, named, listed⟩ := traded.asked
  have order := closeOrder_asked named listed
  have kinds := rewinds.kinds (simulateEvents_days ran).2 (by rw [order]; decide +kernel) entered
  simp only [OpenPosition.entryClock, order, closeOrder] at kinds
  obtain early | ⟨minutes, rule, early⟩ | ⟨_, _, _, _, _, rule, -⟩ | ⟨_, _, _, _, _, rule, -⟩ := kinds
  · exact absurd early (by decide)
  · cases rule
    exact absurd early (by decide)
  · cases rule
  · cases rule

/-- Every order is valid, and is sold at ten in the morning of the session at whose close
it was bought. -/
theorem morningExit_rewinds :
    ¬ ∀ (strategy : EventStrategy) (ledger : TradeLedger Unit),
      (∀ session orders, strategy.orders session = .ok orders →
        ∀ order ∈ orders, order.valid = true) →
      simulateEvents strategy sampleSource ⟨none, 0⟩ (fun _ _ => .ok ()) (.span 1 3) = .ok ledger →
        ∀ trade ∈ ledger.trades,
          trade.entryInstant sampleSource ≤ trade.exitInstant sampleSource := by
  intro claimed
  have instants : (closeRun 600).map (fun ledger => ledger.trades.map fun trade =>
      decide (trade.entryInstant sampleSource ≤ trade.exitInstant sampleSource)) = .ok [false] := by
    decide +kernel
  obtain ⟨ledger, ran, early⟩ := map_ok.mp instants
  obtain ⟨trade, single, early⟩ := List.map_eq_singleton_iff.mp early
  have forward := claimed _ ledger (by
    intro session orders named order listed
    rw [closeOrder_asked named listed]
    decide +kernel) ran trade (by simp [single])
  exact absurd forward (of_decide_eq_false early)

end Samples

end TradingEngine.Study
