import TradingEngine.EventStudies

/-!
# The position limit of an event study

A position is open from its entry session to its exit session, or to the end of the
window. The limit is tested at the entry session only. Within one decision session
entries fall on that session or on the next, and they are accepted in the declared
order: once a next-open entry has filled the next session, a same-session entry that is
held on is still accepted. After the later of the two sessions the occupied slots can
only become fewer, so this is the only way past the limit. Two positions in one ticker
never overlap when holdings are rejected.
-/

namespace TradingEngine.Study

open Runs

/-- When a position in a ticker is open. -/
structure Interval where
  ticker : Ticker
  entry : Date
  exit : Option Date

def Interval.openOn (interval : Interval) (day : Date) : Bool :=
  interval.entry ≤ day ∧ ∀ exit ∈ interval.exit, day ≤ exit

variable {Account : Type}

def OpenPosition.interval (position : OpenPosition) (exit : Option Date) : Interval :=
  ⟨position.holding.ticker, position.holding.entrySession, exit⟩

/-- The accepted positions: those that were traded and those without an exit. -/
def intervals (trades : List (Trade Account)) (positions : List OpenPosition) : List Interval :=
  trades.map (fun trade => trade.position.interval (some trade.exit.session)) ++
    positions.map fun position => position.interval none

/-- No session of the window sees more open positions than the limit. -/
def TradeLedger.WithinLimit (ledger : TradeLedger Account) (maxConcurrent : Nat) : Prop :=
  ∀ day ∈ ledger.days, (intervals ledger.trades ledger.openPositions).countP
    (fun interval => interval.openOn day) ≤ maxConcurrent

/-- No session of the window sees two open positions in one ticker. -/
def TradeLedger.HeldOnce (ledger : TradeLedger Account) : Prop :=
  ∀ day ∈ ledger.days, ∀ ticker, (intervals ledger.trades ledger.openPositions).countP
    (fun interval => interval.ticker = ticker ∧ interval.openOn day) ≤ 1

/-- The sessions that an accepted order occupies: its entry, and its last one if it has
an exit. -/
def Decision.span (days : List Date) : Decision → Option (Nat × Option ℤ)
  | .held _ entryIndex => some (entryIndex, none)
  | .traded _ entryIndex exit => some (entryIndex, some (exitIndex days exit.session))
  | _ => none

def Decision.interval : Decision → Option Interval
  | .held position _ => some (position.interval none)
  | .traded position _ exit => some (position.interval (some exit.session))
  | _ => none

section Sessions

/-- A later session has a later index. -/
theorem le_iff_index {days : List Date} (sorted : days.Pairwise (· < ·)) {first second : Nat}
    {day other : Date} (here : days[first]? = some day) (there : days[second]? = some other) :
    day ≤ other ↔ first ≤ second := by
  obtain ⟨bound, rfl⟩ := List.getElem?_eq_some_iff.mp here
  obtain ⟨limit, rfl⟩ := List.getElem?_eq_some_iff.mp there
  have increasing := List.pairwise_iff_getElem.mp sorted
  constructor
  · intro ordered
    by_contra later
    exact absurd ordered (not_le.mpr (increasing second first limit bound (not_le.mp later)))
  · intro ordered
    rcases Nat.lt_or_eq_of_le ordered with less | rfl
    · exact (increasing first second bound limit less).le
    · exact le_rfl

/-- The sessions up to a day are the first ones. -/
theorem countP_le_iff {days : List Date} (sorted : days.Pairwise (· < ·)) {index : Nat}
    {day : Date} (here : days[index]? = some day) (last : Date) :
    day ≤ last ↔ index < days.countP (· ≤ last) := by
  induction days generalizing index with
  | nil => simp at here
  | cons first rest ih =>
    obtain ⟨earliest, sorted⟩ := List.pairwise_cons.mp sorted
    cases index with
    | zero =>
      obtain rfl : first = day := by simpa using here
      by_cases reached : first ≤ last
      · simp [reached]
      · have none : rest.countP (· ≤ last) = 0 := by
          rw [List.countP_eq_zero]
          intro other listed
          simpa using (not_le.mp reached).trans (earliest other listed)
        simp [reached, none]
    | succ index =>
      have inner := ih sorted (by simpa using here)
      rw [inner, List.countP_cons]
      by_cases reached : first ≤ last
      · simp [reached]
      · have none : rest.countP (· ≤ last) = 0 := by
          rw [List.countP_eq_zero]
          intro other listed
          simpa using (not_le.mp reached).trans (earliest other listed)
        simp [reached, none]

/-- A session is no later than an exit when its index is no later than the exit's. -/
theorem le_exitIndex {days : List Date} (sorted : days.Pairwise (· < ·)) {index : Nat}
    {day : Date} (here : days[index]? = some day) (last : Date) :
    day ≤ last ↔ (index : ℤ) ≤ exitIndex days last := by
  simp only [exitIndex]
  split
  · rename_i found at_
    have there : days[found]? = some last := by
      obtain ⟨bound, same, -⟩ := List.idxOf?_eq_some_iff.mp at_
      exact List.getElem?_eq_some_iff.mpr ⟨bound, by simpa using same⟩
    rw [le_iff_index sorted here there]
    exact_mod_cast Iff.rfl
  · rw [countP_le_iff sorted here last]
    omega

end Sessions

section Orders

variable {strategy : EventStrategy} {source : PriceSource} {listed : Universe} {days : List Date}
  {account : OpenPosition → Exit → Except StudyError Account}

/-- What acceptance of an order establishes. -/
structure Accepts (strategy : EventStrategy) (days : List Date) (book : Book Account)
    (decisionIndex : Nat) (order : Order) (entryIndex : Nat) (interval : Interval) : Prop where
  near : decisionIndex ≤ entryIndex ∧ entryIndex ≤ decisionIndex + 1
  entered : days[entryIndex]? = some interval.entry
  named : interval.ticker = order.ticker
  unheld : strategy.alreadyHeld = .reject → book.heldThrough order.ticker < entryIndex
  free : book.activeByDay entryIndex < strategy.maxConcurrent

variable {book : Book Account} {decisionIndex entryIndex : Nat}

/-- A decision to accept passed every check of the order. -/
theorem decideOrder_accepts {accepted : Nat} {session : Date}
    {order : Order} {decision : Decision} {last : Option ℤ}
    (decided : decideOrder strategy source listed days book accepted decisionIndex session order =
      .ok decision) (spans : decision.span days = some (entryIndex, last)) :
    ∃ interval, decision.interval = some interval ∧
      last = interval.exit.map (exitIndex days) ∧
      Accepts strategy days book decisionIndex order entryIndex interval := by
  simp only [decideOrder] at decided
  split at decided
  · cases decided
    cases spans
  split at decided
  · cases decided
    cases spans
  split at decided
  · cases decided
    cases spans
  split at decided
  · cases decided
    cases spans
  rename_i entrySession filled
  split at decided
  · cases decided
    cases spans
  rename_i unheld
  split at decided
  · cases decided
    cases spans
  rename_i entryPrice priced
  split at decided
  · cases decided
    cases spans
  split at decided
  · cases decided
    cases spans
  rename_i free
  obtain ⟨result, -, rfl⟩ := map_ok.mp decided
  have near : decisionIndex ≤ decisionIndex + order.entry.delay ∧
      decisionIndex + order.entry.delay ≤ decisionIndex + 1 := by
    simp only [FillPoint.delay]
    split <;> omega
  have clear : strategy.alreadyHeld = .reject →
      book.heldThrough order.ticker < ((decisionIndex + order.entry.delay : Nat) : ℤ) := by
    intro rejects
    by_contra held
    exact unheld ⟨rejects, not_lt.mp held⟩
  cases result with
  | unevaluable reason => cases spans
  | missing =>
    cases spans
    exact ⟨_, rfl, rfl, ⟨near, filled, rfl, clear, not_le.mp free⟩⟩
  | found exit =>
    dsimp only at spans ⊢
    split at spans
    · cases spans
    · rename_i complete
      rw [if_neg complete]
      cases spans
      exact ⟨_, rfl, rfl, ⟨near, filled, rfl, clear, not_le.mp free⟩⟩

/-- An order that is not accepted changes no position. -/
structure Untouched (book next : Book Account) : Prop where
  trades : next.trades = book.trades
  positions : next.positions = book.positions
  activeByDay : next.activeByDay = book.activeByDay
  heldThrough : next.heldThrough = book.heldThrough

/-- An accepted order adds one position and occupies its sessions. -/
structure Opened (days : List Date) (book next : Book Account) (order : Order) (entryIndex : Nat)
    (interval : Interval) : Prop where
  intervals : (intervals next.trades next.positions).Perm
    (interval :: intervals book.trades book.positions)
  activeByDay : next.activeByDay =
    occupy book.activeByDay entryIndex (interval.exit.map (exitIndex days))
  elsewhere : ∀ ticker, ticker ≠ order.ticker → next.heldThrough ticker = book.heldThrough ticker
  held : ∀ (index : Nat) (day : Date), days[index]? = some day → interval.openOn day →
    (index : ℤ) ≤ next.heldThrough order.ticker
  longer : ∀ index : ℤ, index ≤ book.heldThrough order.ticker → index < days.length →
    index ≤ next.heldThrough order.ticker

/-- Every order leaves the positions as they are or opens one. -/
theorem takeOrder_ok (sorted : days.Pairwise (· < ·)) {next : Book Account}
    {accepted taken : Nat} {session : Date} {order : Order}
    (stepped : takeOrder strategy source listed days account decisionIndex session
      (book, accepted) order = .ok (next, taken)) :
    ∃ decision, decideOrder strategy source listed days book accepted decisionIndex session order =
        .ok decision ∧
      (decision.span days = none ∧ Untouched book next ∨
        ∃ entryIndex interval,
          decision.span days = some (entryIndex, interval.exit.map (exitIndex days)) ∧
          Accepts strategy days book decisionIndex order entryIndex interval ∧
          Opened days book next order entryIndex interval) := by
  obtain ⟨decision, decided, stepped⟩ := bind_ok.mp stepped
  refine ⟨decision, decided, ?_⟩
  cases decision with
  | rejected reason =>
    cases stepped
    exact .inl ⟨rfl, ⟨rfl, rfl, rfl, rfl⟩⟩
  | unfilled reason =>
    cases stepped
    exact .inl ⟨rfl, ⟨rfl, rfl, rfl, rfl⟩⟩
  | held position entryIndex =>
    cases stepped
    obtain ⟨interval, same, -, accepts⟩ := decideOrder_accepts decided rfl
    obtain rfl := Option.some.inj same
    refine .inr ⟨entryIndex, _, rfl, accepts, ⟨?_, rfl, ?_, ?_, ?_⟩⟩
    · simp only [intervals, List.map_append, List.map_cons, List.map_nil, ← List.append_assoc]
      exact List.perm_append_singleton _ _
    · intro ticker other
      exact Function.update_of_ne other _ _
    · intro index day here _
      obtain ⟨bound, -⟩ := List.getElem?_eq_some_iff.mp here
      simp only [Function.update_self]
      omega
    · intro index _ inside
      simp only [Function.update_self]
      exact inside.le
  | traded position entryIndex exit =>
    obtain ⟨report, -, same⟩ := map_ok.mp stepped
    cases same
    obtain ⟨interval, same, -, accepts⟩ := decideOrder_accepts decided rfl
    obtain rfl := Option.some.inj same
    refine .inr ⟨entryIndex, _, rfl, accepts, ⟨?_, rfl, ?_, ?_, ?_⟩⟩
    · simp only [intervals, List.map_append, List.map_cons, List.map_nil, List.append_assoc]
      exact List.perm_middle
    · intro ticker other
      exact Function.update_of_ne other _ _
    · intro index day here open_
      have until_ : day ≤ exit.session := by
        simp only [Interval.openOn, OpenPosition.interval, Option.mem_def, Option.some.injEq,
          forall_eq', decide_eq_true_eq] at open_
        exact open_.2
      simp only [Function.update_self]
      exact le_max_of_le_right ((le_exitIndex sorted here exit.session).mp until_)
    · intro index kept _
      simp only [Function.update_self]
      exact le_max_of_le_left kept

/-- What the book's tables say of its positions. -/
structure Kept (strategy : EventStrategy) (days : List Date) (book : Book Account) : Prop where
  counted : ∀ index day, days[index]? = some day → book.activeByDay index =
    (intervals book.trades book.positions).countP fun interval => interval.openOn day
  held : ∀ interval ∈ intervals book.trades book.positions, ∀ (index : Nat) (day : Date),
    days[index]? = some day → interval.openOn day → (index : ℤ) ≤ book.heldThrough interval.ticker
  once : strategy.alreadyHeld = .reject → ∀ day ∈ days, ∀ ticker,
    (intervals book.trades book.positions).countP
      (fun interval => interval.ticker = ticker ∧ interval.openOn day) ≤ 1

theorem Kept.initial : Kept strategy days (Book.initial : Book Account) :=
  ⟨by simp [Book.initial, intervals], by simp [Book.initial, intervals],
    by simp [Book.initial, intervals]⟩

theorem Kept.untouched {next : Book Account} (kept : Kept strategy days book)
    (same : Untouched book next) : Kept strategy days next :=
  ⟨by rw [same.trades, same.positions, same.activeByDay]; exact kept.counted,
    by rw [same.trades, same.positions, same.heldThrough]; exact kept.held,
    by rw [same.trades, same.positions]; exact kept.once⟩

/-- A position is open on the sessions that it occupies. -/
theorem openOn_iff (sorted : days.Pairwise (· < ·)) {interval : Interval} {index : Nat}
    {day : Date} (entered : days[entryIndex]? = some interval.entry)
    (here : days[index]? = some day) :
    interval.openOn day = true ↔ entryIndex ≤ index ∧
      ∀ last ∈ interval.exit.map (exitIndex days), (index : ℤ) ≤ last := by
  have entry := le_iff_index sorted entered here
  cases ends : interval.exit with
  | none => simp [Interval.openOn, ends, entry]
  | some last => simp [Interval.openOn, ends, entry, le_exitIndex sorted here last]

theorem Kept.opened (sorted : days.Pairwise (· < ·)) {next : Book Account}
    (kept : Kept strategy days book) {order : Order}
    {interval : Interval}
    (accepts : Accepts strategy days book decisionIndex order entryIndex interval)
    (opened : Opened days book next order entryIndex interval) : Kept strategy days next := by
  constructor
  · intro index day here
    rw [opened.intervals.countP_eq, List.countP_cons, opened.activeByDay, occupy,
      ← kept.counted index day here]
    have open_ := openOn_iff sorted accepts.entered here
    split
    · rename_i occupied
      rw [open_.mpr occupied]
      rfl
    · rename_i outside
      rw [if_neg (fun opens => outside (open_.mp opens)), Nat.add_zero]
  · intro other listed index day here opens
    have inside : (index : ℤ) < days.length := by
      obtain ⟨bound, -⟩ := List.getElem?_eq_some_iff.mp here
      exact_mod_cast bound
    rcases List.mem_cons.mp (opened.intervals.mem_iff.mp listed) with rfl | earlier
    · rw [accepts.named]
      exact opened.held index day here opens
    · have before := kept.held other earlier index day here opens
      by_cases same : other.ticker = order.ticker
      · rw [same] at before ⊢
        exact opened.longer index before inside
      · rw [opened.elsewhere other.ticker same]
        exact before
  · intro rejects day listed ticker
    obtain ⟨index, here⟩ := List.mem_iff_getElem?.mp listed
    rw [opened.intervals.countP_eq, List.countP_cons]
    split
    · rename_i opens
      obtain ⟨same, opens⟩ := of_decide_eq_true opens
      -- whatever the ticker held before ended before the entry
      have none : (intervals book.trades book.positions).countP
          (fun other => other.ticker = ticker ∧ other.openOn day) = 0 := by
        rw [List.countP_eq_zero]
        intro other earlier still
        obtain ⟨alike, still⟩ := of_decide_eq_true still
        have before := kept.held other earlier index day here still
        have after := accepts.unheld rejects
        rw [alike, ← same, accepts.named] at before
        have entered := ((openOn_iff sorted accepts.entered here).mp opens).1
        omega
      rw [none]
    · exact kept.once rejects day listed ticker

/-- From an index on, occupied slots only become fewer. -/
def Tapers (book : Book Account) (from_ : Nat) : Prop :=
  ∀ index, from_ ≤ index → book.activeByDay (index + 1) ≤ book.activeByDay index

theorem Tapers.le {from_ first later : Nat} (tapers : Tapers book from_)
    (reached : from_ ≤ first) (ordered : first ≤ later) :
    book.activeByDay later ≤ book.activeByDay first := by
  induction later, ordered using Nat.le_induction with
  | base => exact le_rfl
  | succ index further ih =>
    exact (tapers index (reached.trans further)).trans ih

theorem Tapers.opened {next : Book Account} {from_ : Nat} (tapers : Tapers book from_)
    {order : Order} {interval : Interval} (near : entryIndex ≤ from_)
    (opened : Opened days book next order entryIndex interval) : Tapers next from_ := by
  intro index reached
  have fewer := tapers index reached
  rw [opened.activeByDay]
  simp only [occupy]
  split
  · rename_i occupied
    have also : entryIndex ≤ index ∧
        ∀ last ∈ interval.exit.map (exitIndex days), (index : ℤ) ≤ last := by
      refine ⟨near.trans reached, ?_⟩
      intro last ends
      have before := occupied.2 last ends
      push_cast at before
      omega
    rw [if_pos also]
    exact Nat.succ_le_succ fewer
  · split
    · exact fewer.trans (Nat.le_succ _)
    · exact fewer

/-- An accepted order is held past its entry into a session that is already full. -/
def Crowds (strategy : EventStrategy) (source : PriceSource) (listed : Universe)
    (days : List Date) (decisionIndex : Nat) (session : Date) (state : Book Account × Nat)
    (order : Order) : Prop :=
  ∃ decision, decideOrder strategy source listed days state.1 state.2 decisionIndex session order =
      .ok decision ∧
    ∃ entryIndex last, decision.span days = some (entryIndex, last) ∧
      entryIndex + 1 < days.length ∧ (∀ exit ∈ last, ((entryIndex + 1 : Nat) : ℤ) ≤ exit) ∧
      strategy.maxConcurrent ≤ state.1.activeByDay (entryIndex + 1)

/-- Every session of the window is within the limit. -/
def Limited (strategy : EventStrategy) (days : List Date) (book : Book Account) : Prop :=
  ∀ index, index < days.length → book.activeByDay index ≤ strategy.maxConcurrent

/-- An order that does not crowd leaves every session within the limit. -/
theorem Limited.opened {next : Book Account} (limited : Limited strategy days book)
    {accepted : Nat} {session : Date} {order : Order}
    {interval : Interval} {decision : Decision} (tapers : Tapers book (decisionIndex + 1))
    (decided : decideOrder strategy source listed days book accepted decisionIndex session order =
      .ok decision)
    (spans : decision.span days = some (entryIndex, interval.exit.map (exitIndex days)))
    (accepts : Accepts strategy days book decisionIndex order entryIndex interval)
    (opened : Opened days book next order entryIndex interval)
    (roomy : ¬ Crowds strategy source listed days decisionIndex session (book, accepted) order) :
    Limited strategy days next := by
  intro index inside
  rw [opened.activeByDay]
  simp only [occupy]
  split
  · rename_i occupied
    apply Nat.succ_le_of_lt
    rcases Nat.lt_or_eq_of_le occupied.1 with later | rfl
    · -- past the entry, the session after it is the fullest
      have room : book.activeByDay (entryIndex + 1) < strategy.maxConcurrent := by
        by_contra full
        refine roomy ⟨decision, decided, entryIndex, _, spans, by omega, ?_, not_lt.mp full⟩
        intro last ends
        have before := occupied.2 last ends
        push_cast
        omega
      exact (tapers.le (Nat.succ_le_succ accepts.near.1) later).trans_lt room
    · exact accepts.free
  · exact limited index inside

/-- Slots only fill up. -/
theorem takeOrder_grows (sorted : days.Pairwise (· < ·)) {state next : Book Account × Nat}
    {session : Date} {order : Order}
    (stepped : takeOrder strategy source listed days account decisionIndex session state order =
      .ok next) (index : Nat) : state.1.activeByDay index ≤ next.1.activeByDay index := by
  obtain ⟨_, -, ⟨-, same⟩ | ⟨_, _, -, -, opened⟩⟩ := takeOrder_ok sorted stepped
  · rw [same.activeByDay]
  · rw [opened.activeByDay]
    simp only [occupy]
    split
    · exact Nat.le_succ _
    · exact le_rfl

theorem takeOrder_keeps (sorted : days.Pairwise (· < ·)) {state next : Book Account × Nat}
    {session : Date} {order : Order}
    (sound : Kept strategy days state.1 ∧ Tapers state.1 (decisionIndex + 1))
    (stepped : takeOrder strategy source listed days account decisionIndex session state order =
      .ok next) : Kept strategy days next.1 ∧ Tapers next.1 (decisionIndex + 1) := by
  obtain ⟨_, -, ⟨-, same⟩ | ⟨_, _, -, accepts, opened⟩⟩ := takeOrder_ok sorted stepped
  · refine ⟨sound.1.untouched same, ?_⟩
    intro index reached
    rw [same.activeByDay]
    exact sound.2 index reached
  · exact ⟨sound.1.opened sorted accepts opened, sound.2.opened accepts.near.2 opened⟩

theorem takeOrder_limited (sorted : days.Pairwise (· < ·)) {state next : Book Account × Nat}
    {session : Date} {order : Order}
    (tapers : Tapers state.1 (decisionIndex + 1)) (limited : Limited strategy days state.1)
    (stepped : takeOrder strategy source listed days account decisionIndex session state order =
      .ok next)
    (roomy : ¬ Crowds strategy source listed days decisionIndex session state order) :
    Limited strategy days next.1 := by
  obtain ⟨_, decided, ⟨-, same⟩ | ⟨_, _, spans, accepts, opened⟩⟩ := takeOrder_ok sorted stepped
  · intro index inside
    rw [same.activeByDay]
    exact limited index inside
  · exact limited.opened tapers decided spans accepts opened roomy

/-- An order that crowds breaks the limit at the session after its entry. -/
theorem takeOrder_crowds (sorted : days.Pairwise (· < ·)) {state next : Book Account × Nat}
    {session : Date} {order : Order}
    (stepped : takeOrder strategy source listed days account decisionIndex session state order =
      .ok next)
    (crowds : Crowds strategy source listed days decisionIndex session state order) :
    ∃ index, index < days.length ∧ strategy.maxConcurrent < next.1.activeByDay index := by
  obtain ⟨decision, decided, entryIndex, last, spans, inside, within_, full⟩ := crowds
  obtain ⟨taken, again, accepted⟩ := takeOrder_ok sorted stepped
  obtain rfl : decision = taken := Except.ok.inj (decided.symm.trans again)
  refine ⟨entryIndex + 1, inside, ?_⟩
  rcases accepted with ⟨nothing, -⟩ | ⟨entered, interval, same, -, opened⟩
  · cases nothing.symm.trans spans
  · cases spans.symm.trans same
    rw [opened.activeByDay, occupy, if_pos ⟨Nat.le_succ _, within_⟩]
    exact Nat.lt_succ_of_le full

end Orders

section Runs

variable {strategy : EventStrategy} {source : PriceSource} {listed : Universe} {days : List Date}
  {account : OpenPosition → Exit → Except StudyError Account}

variable {book : Book Account}

theorem takeSession_ok {next : Book Account} {decision : Date × Nat} :
    takeSession strategy source listed days account book decision = .ok next ↔
      ∃ orders, strategy.orders decision.1 = .ok orders ∧ ∃ accepted,
        (ordered orders strategy.orderSortKey).foldlM
          (takeOrder strategy source listed days account decision.2 decision.1) (book, 0) =
            .ok (next, accepted) := by
  constructor
  · intro taken
    obtain ⟨orders, named, folded⟩ := bind_ok.mp taken
    obtain ⟨⟨_, accepted⟩, completed, rfl⟩ := map_ok.mp folded
    exact ⟨orders, named, accepted, completed⟩
  · rintro ⟨orders, named, accepted, completed⟩
    exact bind_ok.mpr ⟨orders, named, map_ok.mpr ⟨_, completed, rfl⟩⟩

theorem takeSession_keeps (sorted : days.Pairwise (· < ·)) {next : Book Account}
    {decision : Date × Nat}
    (sound : Kept strategy days book ∧ Tapers book (decision.2 + 1))
    (taken : takeSession strategy source listed days account book decision = .ok next) :
    Kept strategy days next ∧ Tapers next (decision.2 + 1) := by
  obtain ⟨orders, -, accepted, completed⟩ := takeSession_ok.mp taken
  refine foldlM_invariant
    (fun state : Book Account × Nat => Kept strategy days state.1 ∧ Tapers state.1 (decision.2 + 1))
    ?_ sound completed
  intro state order _ after holds stepped
  exact takeOrder_keeps sorted holds stepped

theorem takeSession_grows (sorted : days.Pairwise (· < ·)) {next : Book Account}
    {decision : Date × Nat}
    (taken : takeSession strategy source listed days account book decision = .ok next)
    (index : Nat) : book.activeByDay index ≤ next.activeByDay index := by
  obtain ⟨orders, -, accepted, completed⟩ := takeSession_ok.mp taken
  refine foldlM_invariant
    (fun state : Book Account × Nat => book.activeByDay index ≤ state.1.activeByDay index)
    ?_ le_rfl completed
  intro state order _ after holds stepped
  exact holds.trans (takeOrder_grows sorted stepped index)

/-- The sessions are visited one after the other, each with tapering slots. -/
theorem visited_keeps (sorted : days.Pairwise (· < ·)) {rest : List Date} {start : Nat}
    (kept : Kept strategy days book) (tapers : Tapers book start) :
    ∀ visit ∈ visitedM (takeSession strategy source listed days account) book (rest.zipIdx start),
      Kept strategy days visit.1 ∧ Tapers visit.1 (visit.2.2 + 1) := by
  induction rest generalizing start book with
  | nil => simp [visitedM]
  | cons session rest ih =>
    have later : Tapers book (start + 1) := fun index reached =>
      tapers index ((Nat.le_succ start).trans reached)
    intro visit member
    rw [List.zipIdx_cons] at member
    rcases List.mem_cons.mp member with rfl | further
    · exact ⟨kept, later⟩
    · split at further
      · rename_i next taken
        obtain ⟨keptNext, tapersNext⟩ := takeSession_keeps sorted ⟨kept, later⟩ taken
        exact ih keptNext tapersNext visit further
      · cases further

variable (strategy source listed days account)

/-- An order with the session that decided it and what was there before it. -/
structure Taken (Account : Type) where
  decision : Date × Nat
  state : Book Account × Nat
  order : Order

/-- Every order that a simulation takes up. -/
def takenOrders : List (Taken Account) :=
  (visitedM (takeSession strategy source listed days account) .initial days.zipIdx).flatMap
    fun visit =>
      match strategy.orders visit.2.1 with
      | .ok orders =>
        (visitedM (takeOrder strategy source listed days account visit.2.2 visit.2.1) (visit.1, 0)
          (ordered orders strategy.orderSortKey)).map fun inner => ⟨visit.2, inner.1, inner.2⟩
      | .error _ => []

variable {strategy source listed days account}

theorem mem_takenOrders {visit : Book Account × Date × Nat}
    (visited : visit ∈ visitedM (takeSession strategy source listed days account) .initial
      days.zipIdx) {orders : List Order} (named : strategy.orders visit.2.1 = .ok orders)
    {inner : (Book Account × Nat) × Order}
    (taken : inner ∈ visitedM (takeOrder strategy source listed days account visit.2.2 visit.2.1)
      (visit.1, 0) (ordered orders strategy.orderSortKey)) :
    ⟨visit.2, inner.1, inner.2⟩ ∈ takenOrders strategy source listed days account := by
  refine List.mem_flatMap.mpr ⟨visit, visited, ?_⟩
  rw [named]
  exact List.mem_map.mpr ⟨inner, taken, rfl⟩

variable {final : Book Account}

/-- A simulation in which no order crowds stays within the limit. -/
theorem simulation_limited (sorted : days.Pairwise (· < ·))
    (completed : days.zipIdx.foldlM (takeSession strategy source listed days account) .initial =
      .ok final)
    (roomy : ∀ taken ∈ takenOrders strategy source listed days account,
      ¬ Crowds strategy source listed days taken.decision.2 taken.decision.1 taken.state
        taken.order) : Limited strategy days final := by
  have sound : ∀ visit ∈
      visitedM (takeSession strategy source listed days account) .initial days.zipIdx,
      Kept strategy days visit.1 ∧ Tapers visit.1 (visit.2.2 + 1) :=
    visited_keeps sorted Kept.initial fun _ _ => le_rfl
  refine foldlM_visited (Limited strategy days) ?_ (fun _ _ => Nat.zero_le _) completed
  intro visit visited next limited taken
  obtain ⟨orders, named, accepted, folded⟩ := takeSession_ok.mp taken
  refine (foldlM_visited (fun state : Book Account × Nat => (Kept strategy days state.1 ∧
    Tapers state.1 (visit.2.2 + 1)) ∧ Limited strategy days state.1) ?_
    ⟨sound visit visited, limited⟩ folded).2
  rintro ⟨state, order⟩ listedOrder after ⟨holds, within_⟩ stepped
  exact ⟨takeOrder_keeps sorted holds stepped,
    takeOrder_limited sorted holds.2 within_ stepped
      (roomy _ (mem_takenOrders visited named listedOrder))⟩

/-- A simulation that stays within the limit takes up no order that crowds. -/
theorem simulation_roomy (sorted : days.Pairwise (· < ·))
    (completed : days.zipIdx.foldlM (takeSession strategy source listed days account) .initial =
      .ok final) (limited : Limited strategy days final) :
    ∀ taken ∈ takenOrders strategy source listed days account,
      ¬ Crowds strategy source listed days taken.decision.2 taken.decision.1 taken.state
        taken.order := by
  intro taken member crowds
  obtain ⟨visit, visited, member⟩ := List.mem_flatMap.mp member
  split at member
  · rename_i orders named
    obtain ⟨⟨state, order⟩, inner, rfl⟩ := List.mem_map.mp member
    -- the session that becomes too full stays so to the end of both loops
    obtain ⟨after, session, -⟩ := visitedM_lasts (fun _ => True) (fun _ _ _ _ _ => trivial)
      completed visit visited
    obtain ⟨named', same, accepted, folded⟩ := takeSession_ok.mp session
    obtain rfl : orders = named' := Except.ok.inj (named.symm.trans same)
    obtain ⟨next, stepped, -⟩ := visitedM_lasts (fun _ => True) (fun _ _ _ _ _ => trivial) folded
      (state, order) inner
    obtain ⟨index, inside, full⟩ := takeOrder_crowds sorted stepped crowds
    obtain ⟨_, again, toSession⟩ := visitedM_lasts
      (fun state : Book Account × Nat => strategy.maxConcurrent < state.1.activeByDay index)
      (fun _ _ _ holds further => holds.trans_le (takeOrder_grows sorted further index)) folded
      (state, order) inner
    obtain rfl := Except.ok.inj (stepped.symm.trans again)
    obtain ⟨_, also, toEnd⟩ := visitedM_lasts
      (fun book : Book Account => strategy.maxConcurrent < book.activeByDay index)
      (fun _ _ _ holds further => holds.trans_le (takeSession_grows sorted further index)) completed
      visit visited
    obtain rfl := Except.ok.inj (session.symm.trans also)
    exact absurd (limited index inside) (not_le.mpr (toEnd (toSession full)))
  · cases member

theorem simulation_kept (sorted : days.Pairwise (· < ·))
    (completed : days.zipIdx.foldlM (takeSession strategy source listed days account) .initial =
      .ok final) : Kept strategy days final := by
  have sound : ∀ visit ∈
      visitedM (takeSession strategy source listed days account) .initial days.zipIdx,
      Kept strategy days visit.1 ∧ Tapers visit.1 (visit.2.2 + 1) :=
    visited_keeps sorted Kept.initial fun _ _ => le_rfl
  refine foldlM_visited (Kept strategy days) ?_ Kept.initial completed
  intro visit visited next _ taken
  exact (takeSession_keeps sorted (sound visit visited) taken).1

/-- The accepted positions of a study stay within the limit in every session, and never
overlap in one ticker where holdings are rejected, exactly when no accepted order is
held past its entry into a session that is already full. -/
theorem simulateEvents_limit {window : Window} {ledger : TradeLedger Account}
    (ran : simulateEvents strategy source listed account window = .ok ledger) :
    (ledger.WithinLimit strategy.maxConcurrent ∧
      (strategy.alreadyHeld = .reject → ledger.HeldOnce)) ↔
    ∀ taken ∈ takenOrders strategy source listed ledger.days account,
      ¬ Crowds strategy source listed ledger.days taken.decision.2 taken.decision.1 taken.state
        taken.order := by
  obtain ⟨days, chosen, ran⟩ := bind_ok.mp ran
  obtain ⟨final, completed, rfl⟩ := map_ok.mp ran
  have sorted : days.Pairwise (· < ·) := by
    simp only [sessions] at chosen
    split at chosen
    · cases chosen
    · cases chosen
      exact source.ordered.filter _
  have kept := simulation_kept sorted completed
  -- the ledger's trades are those of the book in another order
  have perm : (intervals (final.trades.insertionSort fun first second =>
      first.place ≤ second.place) final.positions).Perm
        (intervals final.trades final.positions) :=
    ((List.perm_insertionSort _ _).map _).append_right _
  constructor
  · rintro ⟨within_, -⟩
    refine simulation_roomy sorted completed ?_
    intro index inside
    obtain ⟨day, here⟩ : ∃ day, days[index]? = some day :=
      ⟨days[index], List.getElem?_eq_getElem inside⟩
    have bounded := within_ day (List.mem_of_getElem? here)
    rw [perm.countP_eq] at bounded
    exact (kept.counted index day here).trans_le bounded
  · intro roomy
    have limited := simulation_limited sorted completed roomy
    constructor
    · intro day listedDay
      obtain ⟨index, here⟩ := List.mem_iff_getElem?.mp listedDay
      obtain ⟨bound, -⟩ := List.getElem?_eq_some_iff.mp here
      rw [perm.countP_eq]
      exact (kept.counted index day here).symm.trans_le (limited index bound)
    · intro rejects day listedDay ticker
      rw [perm.countP_eq]
      exact kept.once rejects day listedDay ticker

end Runs

section Samples

/-- Three sessions on which every price is ten. -/
def sampleSource : PriceSource where
  sessions := [1, 2, 3]
  ordered := by decide
  present := fun _ _ => true
  value := fun _ _ _ => some 10
  tickers := ["A", "B"]
  sessionOpen := 570
  sessionClose := 960

def sampleOrder (ticker : Ticker) (entry : FillPoint) : Order :=
  ⟨ticker, .long, entry, .afterNSessions 1 .closeAuction, 100, none, none⟩

/-- One slot, and orders on the first session only. -/
def sampleStrategy (orders : List Order) : EventStrategy where
  decisionTime := .preOpen
  orders := fun session => .ok (if session = 1 then orders else [])
  maxConcurrent := 1
  maxNewPerSession := 2
  orderSortKey := [⟨.ticker, false⟩]
  openAsIndication := false
  closeAsIndication := false
  alreadyHeld := .reject
  windowEnd := .forceClose
  requireCompletePath := false

def sampleRun (orders : List Order) : Except StudyError (TradeLedger Unit) :=
  simulateEvents (sampleStrategy orders) sampleSource ⟨none, 0⟩ (fun _ _ => .ok ()) (.span 1 3)

theorem simulateEvents_limit_sample :
    ∃ ledger, sampleRun [sampleOrder "A" .openAuction, sampleOrder "B" .nextOpen] = .ok ledger ∧
      ((ledger.WithinLimit 1 ∧ (AlreadyHeld.reject = .reject → ledger.HeldOnce)) ↔
        ∀ taken ∈ takenOrders
            (sampleStrategy [sampleOrder "A" .openAuction, sampleOrder "B" .nextOpen])
            sampleSource ⟨none, 0⟩ ledger.days (fun _ _ => .ok ()),
          ¬ Crowds (sampleStrategy [sampleOrder "A" .openAuction, sampleOrder "B" .nextOpen])
            sampleSource ⟨none, 0⟩ ledger.days taken.decision.2 taken.decision.1 taken.state
            taken.order) := by
  obtain ⟨ledger, ran⟩ : ∃ ledger,
      sampleRun [sampleOrder "A" .openAuction, sampleOrder "B" .nextOpen] = .ok ledger :=
    exists_ok (by decide +kernel)
  exact ⟨ledger, ran, simulateEvents_limit ran⟩

/-- A next-open entry and then a same-session entry, both held over the second session:
two positions are open there, and the limit is one. -/
theorem simulateEvents_overLimit :
    ¬ ∀ ledger, sampleRun [sampleOrder "A" .nextOpen, sampleOrder "B" .openAuction] = .ok ledger →
      ledger.WithinLimit 1 := by
  intro always
  have counts : (sampleRun [sampleOrder "A" .nextOpen, sampleOrder "B" .openAuction]).map
      (fun ledger => (ledger.days, (intervals ledger.trades ledger.openPositions).countP
        fun interval => interval.openOn 2)) = .ok ([1, 2, 3], 2) := by decide +kernel
  obtain ⟨ledger, ran, same⟩ := map_ok.mp counts
  obtain ⟨days, twice⟩ := Prod.mk.inj same
  have once := always ledger ran 2 (by rw [days]; decide)
  rw [twice] at once
  exact absurd once (by decide)

end Samples

end TradingEngine.Study
