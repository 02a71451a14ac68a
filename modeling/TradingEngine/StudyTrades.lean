import TradingEngine.EventStudies

/-!
# The trades of an event study

Every trade in the ledger of a study comes from an order that the strategy named: it
was filled at a session of the window, and its exit is the one that the search for an
exit found. An exit falls on a session of the window, or it is the exit of a delisting.
-/

namespace TradingEngine.Study

open Runs

variable {Account : Type} {strategy : EventStrategy} {source : PriceSource} {listed : Universe}
  {days : List Date} {account : OpenPosition → Exit → Except StudyError Account}

/-- What is known of a position that was traded. -/
structure Traded (strategy : EventStrategy) (source : PriceSource) (listed : Universe)
    (days : List Date) (position : OpenPosition) (entryIndex : Nat) (exit : Exit) : Prop where
  asked : ∃ session ∈ days, ∃ orders, strategy.orders session = .ok orders ∧
    position.order ∈ orders
  timed : validEntryTime strategy source position.order.entry = true
  entered : days[entryIndex]? = some position.holding.entrySession
  named : position.holding.ticker = position.order.ticker
  priced : source.value position.order.ticker position.holding.entrySession
    position.order.entry.field = some position.holding.entryPrice
  found : Study.exit strategy source listed days position entryIndex = .ok (.found exit)

theorem ordered_perm (orders : List Order) (keys : List SortKey) :
    (ordered orders keys).Perm orders := by
  induction keys with
  | nil => exact List.perm_insertionSort _ _
  | cons key rest ih =>
    exact (List.perm_insertionSort _ _).trans ih

/-- A decision to trade went through every check of the order. -/
theorem decideOrder_traded {book : Book Account} {accepted decisionIndex entryIndex : Nat}
    {session : Date} {order : Order} {position : OpenPosition} {exit : Exit}
    (asked : ∃ orders, strategy.orders session = .ok orders ∧ order ∈ orders)
    (visited : session ∈ days)
    (decided : decideOrder strategy source listed days book accepted decisionIndex session order =
      .ok (.traded position entryIndex exit)) :
    Traded strategy source listed days position entryIndex exit := by
  simp only [decideOrder] at decided
  split at decided
  · cases decided
  split at decided
  · cases decided
  split at decided
  · cases decided
  rename_i timed
  rw [not_not] at timed
  split at decided
  · cases decided
  rename_i entrySession filled
  split at decided
  · cases decided
  split at decided
  · cases decided
  rename_i entryPrice priced
  split at decided
  · cases decided
  split at decided
  · cases decided
  obtain ⟨result, found, same⟩ := map_ok.mp decided
  cases result with
  | unevaluable reason => cases same
  | missing => cases same
  | found exit =>
    dsimp only at same
    split at same
    · cases same
    · cases same
      exact ⟨⟨session, visited, asked⟩, timed, filled, rfl,
        (Option.filter_eq_some_iff.mp priced).1, found⟩

/-- An order leaves the trades as they are or adds one. -/
theorem takeOrder_trades {state next : Book Account × Nat} {decisionIndex : Nat} {session : Date}
    {order : Order} (asked : ∃ orders, strategy.orders session = .ok orders ∧ order ∈ orders)
    (visited : session ∈ days)
    (stepped : takeOrder strategy source listed days account decisionIndex session state order =
      .ok next) :
    ∀ trade ∈ next.1.trades, trade ∈ state.1.trades ∨
      ∃ entryIndex, Traded strategy source listed days trade.position entryIndex trade.exit := by
  obtain ⟨decision, decided, stepped⟩ := bind_ok.mp stepped
  cases decision with
  | rejected reason =>
    cases stepped
    exact fun trade old => .inl old
  | unfilled reason =>
    cases stepped
    exact fun trade old => .inl old
  | held position entryIndex =>
    cases stepped
    exact fun trade old => .inl old
  | traded position entryIndex exit =>
    obtain ⟨report, -, same⟩ := map_ok.mp stepped
    cases same
    intro trade member
    obtain old | new := List.mem_append.mp member
    · exact .inl old
    · obtain rfl := List.mem_singleton.mp new
      exact .inr ⟨entryIndex, decideOrder_traded asked visited decided⟩

theorem simulateEvents_days {window : Window} {ledger : TradeLedger Account}
    (ran : simulateEvents strategy source listed account window = .ok ledger) :
    ledger.days = source.sessions.filter window.contains ∧ ledger.days.Pairwise (· < ·) := by
  obtain ⟨days, chosen, ran⟩ := bind_ok.mp ran
  obtain ⟨final, -, rfl⟩ := map_ok.mp ran
  simp only [sessions] at chosen
  split at chosen
  · cases chosen
  · cases chosen
    exact ⟨rfl, source.ordered.filter _⟩

/-- Every trade of a ledger was traded. -/
theorem simulateEvents_traded {window : Window} {ledger : TradeLedger Account}
    (ran : simulateEvents strategy source listed account window = .ok ledger) :
    ∀ trade ∈ ledger.trades, ∃ entryIndex,
      Traded strategy source listed ledger.days trade.position entryIndex trade.exit := by
  obtain ⟨days, chosen, ran⟩ := bind_ok.mp ran
  obtain ⟨final, completed, rfl⟩ := map_ok.mp ran
  have all : ∀ trade ∈ final.trades, ∃ entryIndex,
      Traded strategy source listed days trade.position entryIndex trade.exit := by
    apply foldlM_invariant (fun book : Book Account => ∀ trade ∈ book.trades, ∃ entryIndex,
      Traded strategy source listed days trade.position entryIndex trade.exit) _ _ completed
    · intro decision member book next holds taken
      obtain ⟨orders, named, folded⟩ := bind_ok.mp taken
      obtain ⟨⟨_, accepted⟩, completed, rfl⟩ := map_ok.mp folded
      have visited : decision.1 ∈ days := List.fst_mem_of_mem_zipIdx member
      apply foldlM_invariant (fun state : Book Account × Nat => ∀ trade ∈ state.1.trades,
        ∃ entryIndex, Traded strategy source listed days trade.position entryIndex trade.exit)
          _ holds completed
      intro order listedOrder state after holds stepped trade recorded
      have asked := (ordered_perm orders strategy.orderSortKey).mem_iff.mp listedOrder
      obtain old | new := takeOrder_trades ⟨orders, named, asked⟩ visited stepped trade recorded
      · exact holds trade old
      · exact new
    · intro trade none
      cases none
  intro trade member
  exact all trade ((List.perm_insertionSort _ _).mem_iff.mp member)

section Exits

/-- The session and the fill that an exit rule plans for a position, if it plans one. -/
def plannedExit (strategy : EventStrategy) (days : List Date) (position : OpenPosition)
    (entryIndex : Nat) : Except StudyError (Option (Nat × FillPoint × ExitReason)) :=
  match position.order.exit with
  | .sameSessionClose => .ok (some (entryIndex, .closeAuction, .sameSessionClose))
  | .atTime minutes => .ok (some (entryIndex, .barClose minutes, .atTime))
  | .afterNSessions count fill =>
    if (fillDay days (entryIndex + count) fill).isNone ∧ strategy.windowEnd = .unevaluable then
      .ok none
    else .ok (some (entryIndex + count, fill, .afterNSessions))
  | .firstCondition count fallback decisionTime firstCheck predicate =>
    if decisionTime = .atClose ∧ ¬ strategy.closeAsIndication then
      .error (.value "first_condition at close requires close_as_indication=True")
    else
      let limit := min (entryIndex + count) (days.length - 1)
      let first := if firstCheck = .entrySession then entryIndex else entryIndex + 1
      let checked := (days.zipIdx.map Prod.swap).filter fun indexed =>
        first ≤ indexed.1 ∧ indexed.1 ≤ limit
      (firstHolding predicate position.holding checked).bind fun
        | some index =>
          match decisionTime with
          | .atOpen => .ok (some (index, .openAuction, .firstCondition))
          | .atClose => .ok (some (index, .closeAuction, .firstCondition))
          | .clock minutes => .ok (some (index, .barClose minutes, .firstCondition))
          | .preOpen => .error (.value "invalid time 'pre_open'; expected HH:MM")
        | none =>
          if days.length ≤ entryIndex + count ∧ strategy.windowEnd = .unevaluable then .ok none
          else .ok (some (limit, fallback, .firstConditionFallback))

/-- An exit is what becomes of the planned one. -/
theorem exit_planned (position : OpenPosition) (entryIndex : Nat) :
    exit strategy source listed days position entryIndex =
      (plannedExit strategy days position entryIndex).map fun
        | none => .unevaluable "unevaluable_window_end"
        | some (index, fill, reason) =>
          settleExit source listed days position index fill reason := by
  unfold exit plannedExit
  cases rule : position.order.exit with
  | sameSessionClose => rfl
  | atTime minutes => rfl
  | afterNSessions count fill =>
    dsimp only
    split <;> rfl
  | firstCondition count fallback decisionTime firstCheck predicate =>
    dsimp only
    split
    · rfl
    · generalize firstHolding predicate position.holding _ = first
      cases first with
      | error failure => rfl
      | ok holding =>
        cases holding with
        | none =>
          simp only [Except.bind]
          split <;> rfl
        | some index => cases decisionTime <;> rfl

variable {entryIndex : Nat}

theorem exit_found {position : OpenPosition} {found : Exit}
    (exits : exit strategy source listed days position entryIndex = .ok (.found found)) :
    ∃ index fill reason,
      plannedExit strategy days position entryIndex = .ok (some (index, fill, reason)) ∧
        settleExit source listed days position index fill reason = .found found := by
  rw [exit_planned] at exits
  obtain ⟨planned, here, same⟩ := map_ok.mp exits
  cases planned with
  | none => cases same
  | some plan =>
    obtain ⟨index, fill, reason⟩ := plan
    exact ⟨index, fill, reason, here, same⟩

def DecisionTime.fill : DecisionTime → Option FillPoint
  | .preOpen => none
  | .atOpen => some .openAuction
  | .atClose => some .closeAuction
  | .clock minutes => some (.barClose minutes)

/-- What a rule plans for a position that is entered at a session. -/
inductive Plans (days : List Date) (position : OpenPosition) (entryIndex : Nat) :
    Nat → FillPoint → ExitReason → Prop where
  | close (rule : position.order.exit = .sameSessionClose) :
    Plans days position entryIndex entryIndex .closeAuction .sameSessionClose
  | time {minutes : Nat} (rule : position.order.exit = .atTime minutes) :
    Plans days position entryIndex entryIndex (.barClose minutes) .atTime
  | later {count : Nat} {fill : FillPoint} (rule : position.order.exit = .afterNSessions count fill) :
    Plans days position entryIndex (entryIndex + count) fill .afterNSessions
  | condition {count index : Nat} {fallback fill : FillPoint} {decisionTime : DecisionTime}
      {firstCheck : FirstCheck} {predicate : Date → Holding → Except StudyError Bool} {day : Date}
      (rule : position.order.exit =
        .firstCondition count fallback decisionTime firstCheck predicate)
      (checked : (if firstCheck = .entrySession then entryIndex else entryIndex + 1) ≤ index)
      (visited : days[index]? = some day) (holds : predicate day position.holding = .ok true)
      (decided : decisionTime.fill = some fill) :
    Plans days position entryIndex index fill .firstCondition
  | fallback {count : Nat} {fallback : FillPoint} {decisionTime : DecisionTime}
      {firstCheck : FirstCheck} {predicate : Date → Holding → Except StudyError Bool}
      (rule : position.order.exit =
        .firstCondition count fallback decisionTime firstCheck predicate) :
    Plans days position entryIndex (min (entryIndex + count) (days.length - 1)) fallback
      .firstConditionFallback

/-- The search finds a place of the list at which the predicate holds. -/
theorem firstHolding_some {predicate : Date → Holding → Except StudyError Bool}
    {holding : Holding} {checked : List (Nat × Date)} {index : Nat}
    (found : firstHolding predicate holding checked = .ok (some index)) :
    ∃ day, (index, day) ∈ checked ∧ predicate day holding = .ok true := by
  induction checked with
  | nil => cases found
  | cons first rest ih =>
    obtain ⟨place, day⟩ := first
    obtain ⟨holds, asked, found⟩ := bind_ok.mp found
    cases holds with
    | true =>
      obtain rfl : place = index := by simpa using found
      exact ⟨day, List.mem_cons_self, asked⟩
    | false =>
      obtain ⟨other, member, holds⟩ := ih found
      exact ⟨other, List.mem_cons_of_mem _ member, holds⟩

theorem plannedExit_plans {position : OpenPosition} {index : Nat} {fill : FillPoint}
    {reason : ExitReason}
    (planned : plannedExit strategy days position entryIndex = .ok (some (index, fill, reason))) :
    Plans days position entryIndex index fill reason := by
  unfold plannedExit at planned
  cases rule : position.order.exit with
  | sameSessionClose =>
    simp only [rule] at planned
    cases planned
    exact .close rule
  | atTime minutes =>
    simp only [rule] at planned
    cases planned
    exact .time rule
  | afterNSessions count fill =>
    simp only [rule] at planned
    split at planned
    · cases planned
    · cases planned
      exact .later rule
  | firstCondition count fallback decisionTime firstCheck predicate =>
    simp only [rule] at planned
    split at planned
    · cases planned
    obtain ⟨holding, searched, planned⟩ := bind_ok.mp planned
    cases holding with
    | none =>
      dsimp only at planned
      split at planned
      · cases planned
      · cases planned
        exact .fallback rule
    | some place =>
      obtain ⟨day, member, holds⟩ := firstHolding_some searched
      rw [List.mem_filter] at member
      obtain ⟨⟨day', place'⟩, inside, same⟩ := List.mem_map.mp member.1
      cases same
      have visited := List.mem_zipIdx_iff_getElem?.mp inside
      have bounds := of_decide_eq_true member.2
      cases decisionTime with
      | preOpen => cases planned
      | atOpen =>
        cases planned
        exact .condition rule bounds.1 visited holds rfl
      | atClose =>
        cases planned
        exact .condition rule bounds.1 visited holds rfl
      | clock minutes =>
        cases planned
        exact .condition rule bounds.1 visited holds rfl

def ExitReason.delists : ExitReason → Bool
  | .delisting | .delistingFallback => true
  | _ => false

theorem Plans.reason {position : OpenPosition} {index : Nat} {fill : FillPoint}
    {reason : ExitReason} (plans : Plans days position entryIndex index fill reason) :
    reason.delists = false := by
  cases plans <;> rfl

/-- The day through which a ticker is listed, where one is known. -/
def lastListed (listed : Universe) (ticker : Ticker) : Option Date :=
  (listingInterval listed ticker).bind ListingInterval.listedThrough

/-- A delisting closes a position whose exit is planned for a day: the ticker is listed no
more on that day, or its price is missing from that day to the end of the listing, and
the listing ends within the window. -/
def Delists (source : PriceSource) (listed : Universe) (days : List Date)
    (position : OpenPosition) (actual : Date) (fill : FillPoint) : Prop :=
  ∃ last ∈ lastListed listed position.holding.ticker,
    last < actual ∨
      source.value position.holding.ticker actual fill.field = none ∧
        laterPrice source listed position fill.field (days.filter (actual < ·)) = none ∧
        ∀ final ∈ days.getLast?, last ≤ final

/-- The exit of a delisting, with the day and the price of the delisting. -/
def DelistedExit (source : PriceSource) (listed : Universe) (position : OpenPosition)
    (found : Exit) : Prop :=
  ∃ delist, delistingExit source listed position.holding.ticker position.holding.entrySession
      position.holding.entryPrice = some delist ∧
    found.session = delist.session ∧ found.field = .close ∧
    found.reason = if delist.usedFallback then .delistingFallback else .delisting

theorem delistingResult_found {position : OpenPosition} {flags : List Flag} {found : Exit}
    (settled : delistingResult source listed position flags = .found found) :
    DelistedExit source listed position found := by
  unfold delistingResult at settled
  cases known : delistingExit source listed position.holding.ticker position.holding.entrySession
      position.holding.entryPrice with
  | none =>
    rw [known] at settled
    cases settled
  | some delist =>
    rw [known] at settled
    cases settled
    exact ⟨delist, known, rfl, rfl, rfl⟩

theorem laterPrice_mem {position : OpenPosition} {field : Field} {later : List Date}
    {day : Date} {price : ℚ} (found : laterPrice source listed position field later =
      some (day, price)) : day ∈ later := by
  unfold laterPrice at found
  obtain ⟨here, alive, same⟩ := List.exists_of_findSome?_eq_some found
  obtain ⟨value, -, same⟩ := Option.map_eq_some_iff.mp same
  cases same
  exact (List.takeWhile_sublist _).subset alive

/-- The exit at the planned day, or at a later day of the window where the price of the
planned day is missing. -/
def SessionExit (source : PriceSource) (days : List Date) (position : OpenPosition)
    (actual : Date) (fill : FillPoint) (reason : ExitReason) (found : Exit) : Prop :=
  found.field = fill.field ∧ found.reason = reason ∧
    (found.session = actual ∧
        (source.value position.holding.ticker actual fill.field).isSome ∨
      found.session ∈ days ∧ actual < found.session ∧
        source.value position.holding.ticker actual fill.field = none)

/-- An exit is at the planned day, at a later day of the window or at a delisting. -/
theorem settleExit_found {position : OpenPosition} {index : Nat} {fill : FillPoint}
    {reason : ExitReason} {found : Exit}
    (settled : settleExit source listed days position index fill reason = .found found) :
    ∃ actual, fillDay days index fill = some actual ∧
      (Delists source listed days position actual fill ∧
          DelistedExit source listed position found ∨
        ¬ Delists source listed days position actual fill ∧
          SessionExit source days position actual fill reason found) := by
  simp only [settleExit] at settled
  cases filled : fillDay days index fill with
  | none =>
    rw [filled] at settled
    cases settled
  | some actual =>
    refine ⟨actual, rfl, ?_⟩
    simp only [filled] at settled
    rw [← lastListed] at settled
    have settledAt : ∀ value, source.value position.holding.ticker actual fill.field = some value →
        ExitResult.found ⟨actual, fill.field, value, reason, []⟩ = .found found →
        SessionExit source days position actual fill reason found := by
      intro value priced same
      cases same
      exact ⟨rfl, rfl, .inl ⟨rfl, by simp [priced]⟩⟩
    have settledLater : ∀ later value, laterPrice source listed position fill.field
          (days.filter (actual < ·)) = some (later, value) →
        source.value position.holding.ticker actual fill.field = none →
        ExitResult.found ⟨later, fill.field, value, reason, [.missingExitBar]⟩ = .found found →
        SessionExit source days position actual fill reason found := by
      intro later value priced missing same
      cases same
      have inside := List.mem_filter.mp (laterPrice_mem priced)
      exact ⟨rfl, rfl, .inr ⟨inside.1, by simpa using inside.2, missing⟩⟩
    cases ends : lastListed listed position.holding.ticker with
    | none =>
      have listing : ¬ Delists source listed days position actual fill := by
        rintro ⟨last, here, -⟩
        rw [ends] at here
        cases here
      refine .inr ⟨listing, ?_⟩
      simp only [ends, Option.any_none, Bool.false_eq_true, if_false] at settled
      split at settled
      · rename_i value priced
        exact settledAt value priced settled
      · rename_i missing
        split at settled
        · rename_i later value priced
          exact settledLater later value priced missing settled
        · cases settled
    | some last =>
      simp only [ends, Option.any_some, decide_eq_true_eq] at settled
      split at settled
      · rename_i before
        exact .inl ⟨⟨last, ends, .inl before⟩, delistingResult_found settled⟩
      · rename_i listing
        split at settled
        · rename_i value priced
          refine .inr ⟨?_, settledAt value priced settled⟩
          rintro ⟨other, here, before | ⟨missing, -⟩⟩
          · rw [ends] at here
            cases here
            exact listing before
          · rw [missing] at priced
            cases priced
        · rename_i missing
          split at settled
          · rename_i later value priced
            refine .inr ⟨?_, settledLater later value priced missing settled⟩
            rintro ⟨other, here, before | ⟨-, nowhere, -⟩⟩
            · rw [ends] at here
              cases here
              exact listing before
            · rw [nowhere] at priced
              cases priced
          · rename_i nowhere
            split at settled
            · cases settled
            · rename_i within_
              refine .inl ⟨⟨last, ends, .inr ⟨missing, nowhere, ?_⟩⟩,
                delistingResult_found settled⟩
              intro final isLast
              rw [isLast] at within_
              simpa using within_

theorem fillDay_mem {index : Nat} {fill : FillPoint} {actual : Date}
    (filled : fillDay days index fill = some actual) : actual ∈ days :=
  List.mem_of_getElem? filled

/-- A trade that no delisting closed is closed at a session of the window. -/
theorem Traded.session {position : OpenPosition} {found : Exit}
    (traded : Traded strategy source listed days position entryIndex found)
    (listing : found.reason.delists = false) : found.session ∈ days := by
  obtain ⟨index, fill, reason, planned, settled⟩ := exit_found traded.found
  obtain ⟨actual, filled, ⟨-, delisted⟩ | ⟨-, -, -, at_⟩⟩ := settleExit_found settled
  · obtain ⟨delist, -, -, -, closed⟩ := delisted
    rw [closed] at listing
    split at listing <;> cases listing
  · obtain ⟨same, -⟩ | ⟨later, -⟩ := at_
    · rw [same]
      exact fillDay_mem filled
    · exact later

theorem Traded.delisted {position : OpenPosition} {found : Exit}
    (traded : Traded strategy source listed days position entryIndex found)
    (delists : found.reason.delists = true) : DelistedExit source listed position found := by
  obtain ⟨index, fill, reason, planned, settled⟩ := exit_found traded.found
  obtain ⟨actual, -, ⟨-, delisted⟩ | ⟨-, -, same, -⟩⟩ := settleExit_found settled
  · exact delisted
  · rw [same, (plannedExit_plans planned).reason] at delists
    cases delists

end Exits

end TradingEngine.Study
