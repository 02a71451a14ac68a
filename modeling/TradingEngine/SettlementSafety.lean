import TradingEngine.BookSoundness
import TradingEngine.OrderFlow

/-!
# When settlement cannot raise

An order of a fold is settled against the book of its turn. When that book is
sound, every holding has a mark and the order does not open against a position of
the other sign, the order is filled, rejected, expired or left pending: nothing
raises. Intake does not look at the sign of the position, so an order that would
raise is accepted and stops the whole fold.
-/

namespace TradingEngine.Accounts

open KeyedTables OrderTypes Nyse Ledger Costs Fills Runs

variable {zone : Zone}

theorem mem_held {book : Book} {ticker : Ticker} {qty : ℚ} :
    (ticker, qty) ∈ book.held ↔
      ∃ row, book.positions.lookup ticker = some row ∧ row.qty = qty ∧ qty ≠ 0 := by
  unfold Book.held Book.state
  simp only [List.map_map, List.mem_map, List.mem_insertionSort, List.mem_filter,
    Function.comp_apply, Prod.mk.injEq, decide_eq_true_eq]
  constructor
  · rintro ⟨row, ⟨listed, nonzero⟩, rfl, rfl⟩
    exact ⟨row.2, lookup_of_mem listed, rfl, nonzero⟩
  · rintro ⟨row, found, rfl, nonzero⟩
    exact ⟨⟨ticker, row⟩, ⟨mem_of_lookup found, nonzero⟩, rfl, rfl⟩

/-- The listed holding of an instrument is its position. -/
theorem held_qty (book : Book) (ticker : Ticker) :
    ((book.held.find? fun row => row.1 = ticker).map Prod.snd).getD 0 =
      (book.position ticker).qty := by
  cases found : book.held.find? fun row => row.1 = ticker with
  | none =>
    have unheld := List.find?_eq_none.mp found
    by_contra different
    unfold Book.position at different
    cases stored : book.positions.lookup ticker with
    | none => simp [stored] at different
    | some row =>
      have nonzero : row.qty ≠ 0 := by
        intro zero
        simp [stored, zero] at different
      exact unheld (ticker, row.qty) (mem_held.mpr ⟨row, stored, rfl, nonzero⟩) (by simp)
  | some holding =>
    have name : holding.1 = ticker := by simpa using List.find?_some found
    have member : (ticker, holding.2) ∈ book.held := by
      rw [← name]
      exact List.mem_of_find?_eq_some found
    obtain ⟨row, stored, qty, _⟩ := mem_held.mp member
    simp [Book.position, stored, qty]

variable {account : Account} {availableAt : Option Int}

/-- Observable holdings have marks, which keep the positions. -/
theorem heldMarks_returns {market : Market zone} {day : Int}
    {asOf : Option Int}
    (observable : ∀ holding ∈ account.book.held,
      (mark market account holding.1 day asOf availableAt).isOk = true) :
    ∃ marks, heldMarks market account day asOf availableAt = .ok marks ∧
      ∀ ticker, markedQty marks ticker = (account.book.position ticker).qty := by
  have each : ∀ holding ∈ account.book.held, ∃ marked : Marked,
      ((mark market account holding.1 day asOf availableAt).map fun seen =>
        (holding.1, holding.2, seen.price)) = .ok marked := by
    intro holding listed
    have seen := observable holding listed
    cases marked : mark market account holding.1 day asOf availableAt with
    | error raised => simp [marked, Except.isOk, Except.toBool] at seen
    | ok observed => exact ⟨_, rfl⟩
  obtain ⟨marks, computed, pairs⟩ := mapM_ok each
  refine ⟨marks, computed, ?_⟩
  intro ticker
  rw [← held_qty]
  unfold markedQty
  clear computed each observable
  generalize account.book.held = holdings at pairs
  induction pairs with
  | nil => rfl
  | @cons holding _ _ _ first _ ih =>
    obtain ⟨seen, _, rfl⟩ := map_ok.mp first
    by_cases same : holding.1 = ticker
    · simp [same]
    · simpa [same] using ih

/-- An opening side that meets a position of the other sign. -/
def opposes (side : Side) (held : ℚ) : Bool :=
  match side with
  | .buy => decide (held < 0)
  | .short => decide (0 < held)
  | .sell | .cover => false

/-- Margin after a fill is defined unless the fill opens against the position. -/
theorem marginState_returns {market : Market zone} {day : Int}
    {asOf : Option Int} (fill : Projected) (fees : ℚ)
    (observable : ∀ holding ∈ account.book.held,
      (mark market account holding.1 day asOf availableAt).isOk = true)
    (apart : opposes fill.side (account.book.position fill.ticker).qty = false) :
    ∃ state, marginState market account day (some fill) fees asOf availableAt = .ok state := by
  obtain ⟨marks, computed, positions⟩ := heldMarks_returns observable
  have projected : ∃ after, project (account.book.cash - fees) marks fill = .ok after := by
    unfold project
    dsimp only
    rw [positions]
    cases side : fill.side with
    | buy => exact ⟨_, if_neg (by simpa [opposes, side] using apart)⟩
    | sell => exact ⟨_, rfl⟩
    | short => exact ⟨_, if_neg (by simpa [opposes, side] using apart)⟩
    | cover => exact ⟨_, rfl⟩
  obtain ⟨after, moved⟩ := projected
  exact ⟨requirements after.1 after.2,
    bind_ok.mpr ⟨marks, computed, bind_ok.mpr ⟨after, moved, rfl⟩⟩⟩

/-- What an order that passes the first checks asks for. -/
theorem preflight_go {world : World zone} {session : Session}
    {row : PendingRow} {qty : ℚ} (ready : preflight world session account row = .go qty) :
    0 < qty ∧ (row.side = .sell → qty ≤ (account.book.position row.ticker).qty) ∧
      (row.side = .cover → qty ≤ -(account.book.position row.ticker).qty) := by
  have sized : ∀ requested, sizedPreflight world session account row requested = .go qty →
      0 < qty ∧ qty = availableCloseQuantity account row.ticker row.side requested := by
    intro requested goes
    unfold sizedPreflight at goes
    dsimp only at goes
    split at goes
    · cases goes
    · rename_i positive
      split at goes
      · cases goes
      · cases goes
        exact ⟨not_le.mp positive, rfl⟩
  have reached : ∃ requested, sizedPreflight world session account row requested = .go qty := by
    unfold preflight at ready
    split at ready
    · cases ready
    · split at ready
      · cases ready
      · split at ready
        · cases ready
        · split at ready
          · cases ready
          · split at ready <;> cases ready
          · exact ⟨_, ready⟩
          · exact ⟨_, ready⟩
  obtain ⟨requested, goes⟩ := reached
  obtain ⟨positive, rfl⟩ := sized requested goes
  refine ⟨positive, ?_, ?_⟩
  · intro side
    simp only [availableCloseQuantity, side] at positive ⊢
    rcases le_total (account.book.position row.ticker).qty 0 with flat | long
    · rw [max_eq_right flat] at positive
      exact absurd (lt_of_lt_of_le positive (min_le_right _ _)) (lt_irrefl 0)
    · exact (min_le_right _ _).trans (max_eq_left long).le
  · intro side
    simp only [availableCloseQuantity, side] at positive ⊢
    rcases le_total (account.book.position row.ticker).qty 0 with short | flat
    · exact (min_le_right _ _).trans (by rw [min_eq_left short, abs_of_nonpos short])
    · rw [min_eq_right flat, abs_zero] at positive
      exact absurd (lt_of_lt_of_le positive (min_le_right _ _)) (lt_irrefl 0)

theorem pdtCheck_returns {market : Market zone} {ticker : Ticker} {side : Side}
    {qty : ℚ} {day : Int} {price : ℚ} {asOf : Option Int}
    (margins : account.settings.dayTradeRule = .intradayMargin2026 →
      ∃ state, marginState market account day (some ⟨ticker, side, qty, price⟩) 0 asOf
        availableAt = .ok state) :
    ∃ result, pdtCheck market account ticker side qty day price asOf availableAt = .ok result := by
  unfold pdtCheck
  split
  · exact ⟨_, rfl⟩
  · split
    · rename_i rule
      split
      · exact ⟨_, rfl⟩
      · obtain ⟨state, computed⟩ := margins rule
        exact ⟨_, bind_ok.mpr ⟨state, computed, rfl⟩⟩
    · dsimp only
      split
      · exact ⟨_, rfl⟩
      · split <;> exact ⟨_, rfl⟩

/-- Sizing a margin account's order keeps its quantity or refuses a tiny one. -/
theorem sizeFill_margin {session : Session} {row : PendingRow}
    {terms : FillTerms} (margin : account.settings.accountType = .margin)
    (positive : 0 < row.qty) (priced : 0 < terms.fillPx) :
    ∃ fees, charge session.settings.costProfile row.side row.qty terms.fillPx terms.kind
        session.day = some fees ∧
      sizeFill session account row terms =
        .ok (if row.qty * terms.fillPx < minFillUsd then none else some ⟨row.qty, fees⟩) := by
  have charged : ∃ fees, charge session.settings.costProfile row.side row.qty terms.fillPx
      terms.kind session.day = some fees := by
    unfold charge
    split
    · exact ⟨_, rfl⟩
    · have value : 0 < |row.qty| * terms.fillPx := by positivity
      rw [if_pos ⟨by positivity, value⟩]
      exact ⟨_, rfl⟩
  obtain ⟨fees, charged⟩ := charged
  refine ⟨fees, charged, ?_⟩
  have whole : ∀ fee, cashQuantity account row.side row.qty terms.fillPx fee = row.qty := by
    intro fee
    simp [cashQuantity, margin]
  have same : isClose row.qty row.qty (1 / 10 ^ 12) (1 / 10 ^ 12) = true := by
    simp [isClose]
  unfold sizeFill
  simp only [charged, whole, same, if_true]
  split <;> rfl

/-- Whether a priced order gets as far as its margin: the newer day-trading rule asks
for margin itself, the older one and the smallest fill may refuse the order before. -/
def marginReached (world : World zone) (session : Session) (account : Account) (row : PendingRow)
    (terms : FillTerms) : Bool :=
  match account.settings.dayTradeRule with
  | .intradayMargin2026 => true
  | .pdt25kLegacy =>
    match pdtCheck world.market account row.ticker row.side row.qty session.day terms.fillPx
        (some terms.fillTs) (some world.now) with
    | .ok pdt => (isForced row || pdt.refusal.isNone) && decide (minFillUsd ≤ row.qty * terms.fillPx)
    | .error _ => true

/-- Whether a turn takes an opening order to its margin against a position of the
other sign. -/
def Turn.clashes (world : World zone) (turn : Turn) : Bool :=
  match turn.item with
  | .execute row (.filled terms) =>
    match preflight world turn.session turn.account row with
    | .go qty => decide (row.orderId ∉ turn.session.refusals) &&
        opposes row.side (turn.account.book.position row.ticker).qty &&
        marginReached world turn.session turn.account { row with qty := qty } terms
    | _ => false
  | _ => false

/-- Every holding has a mark when a priced order executes. -/
def Turn.Observable (world : World zone) (turn : Turn) : Prop :=
  match turn.item with
  | .execute _ (.filled terms) => ∀ holding ∈ turn.account.book.held,
      (mark world.market turn.account holding.1 turn.session.day (some terms.fillTs)
        (some world.now)).isOk = true
  | _ => True

/-- No quantity that a turn compares with dust is dust. -/
def Turn.Clean (world : World zone) (turn : Turn) : Prop :=
  match turn.item with
  | .recorded event => CleanEvent turn.account.ledgerSettings turn.account.ledger.times
      turn.account.book event
  | .execute row _ =>
    match preflight world turn.session turn.account row with
    | .go qty => row.side.closing = true → CleanMatch turn.account.ledger.times
        turn.account.book.lots row.ticker qty (row.side = .cover)
    | _ => True
  | _ => True

/-- A turn that settlement can take. -/
def Turn.Settleable (world : World zone) (turn : Turn) : Prop :=
  turn.Observable world ∧ turn.clashes world = false ∧ turn.Clean world

instance (world : World zone) (turn : Turn) : Decidable (turn.Settleable world) := by
  unfold Turn.Settleable Turn.Observable Turn.Clean
  refine @instDecidableAnd _ _ ?_ (@instDecidableAnd _ _ inferInstance ?_)
  · split <;> infer_instance
  · split
    · infer_instance
    · split <;> infer_instance
    · infer_instance

/-- An order of a fold is settled without raising. -/
def Turn.Returns (world : World zone) (turn : Turn) : Prop :=
  match turn.item with
  | .execute row result =>
    (settleOrder world turn.session turn.account row result).isOk = true
  | _ => True

instance (world : World zone) (turn : Turn) : Decidable (turn.Returns world) := by
  unfold Turn.Returns
  split <;> infer_instance

/-- Recorded fills belong to orders that are filled. -/
def FillsSettled (account : Account) : Prop :=
  ∀ id, account.ledger.fills.lookup id ≠ none →
    ∃ order, account.orders.lookup id = some order ∧ order.status = .filled

/-- What a fold keeps up for its orders: a margin account with lots that carry the
positions and come from recorded fills. -/
structure SoundAccount (account : Account) : Prop where
  margin : account.settings.accountType = .margin
  carried : Carried account.book
  rooted : Rooted (fun id => account.ledger.fills.lookup id ≠ none) account.book
  settled : FillsSettled account

theorem SoundAccount.afterPdt (sound : SoundAccount account)
    (world : World zone) (session : Session) (flagged : Bool) :
    SoundAccount (afterPdt world session account flagged) := by
  cases flagged with
  | false => exact sound
  | true => exact ⟨sound.margin, sound.carried, sound.rooted, sound.settled⟩

@[simp] theorem mark_afterPdt (world : World zone) (session : Session) (account : Account)
    (flagged : Bool) (market : Market zone) (ticker : Ticker) (day : Int)
    (asOf availableAt : Option Int) :
    mark market (afterPdt world session account flagged) ticker day asOf availableAt =
      mark market account ticker day asOf availableAt := by
  cases flagged <;> rfl

/-- A priced order of a sound account executes or is refused. -/
theorem bookFill_returns {world : World zone} {session : Session}
    {row : PendingRow} {terms : FillTerms} (sound : SoundAccount account)
    (unfilled : account.ledger.fills.lookup row.orderId = none)
    (positive : 0 < row.qty) (priced : 0 < terms.fillPx)
    (closes : (row.side = .sell → row.qty ≤ (account.book.position row.ticker).qty) ∧
      (row.side = .cover → row.qty ≤ -(account.book.position row.ticker).qty))
    (clean : row.side.closing = true → CleanMatch account.ledger.times account.book.lots
      row.ticker row.qty (row.side = .cover))
    (apart : minFillUsd ≤ row.qty * terms.fillPx →
      opposes row.side (account.book.position row.ticker).qty = false)
    (observable : ∀ holding ∈ account.book.held,
      (mark world.market account holding.1 session.day (some terms.fillTs)
        (some world.now)).isOk = true) :
    ∃ outcome, bookFill world session account row terms = .ok outcome := by
  obtain ⟨fees, charged, sizing⟩ := sizeFill_margin sound.margin positive priced
  by_cases tiny : row.qty * terms.fillPx < minFillUsd
  · rw [if_pos tiny] at sizing
    exact ⟨_, bind_ok.mpr ⟨none, sizing, rfl⟩⟩
  · rw [if_neg tiny] at sizing
    have aside := apart (not_lt.mp tiny)
    obtain ⟨state, margins⟩ := marginState_returns ⟨row.ticker, row.side, row.qty, terms.fillPx⟩
      fees.totalUsd observable aside
    have fits : Fits row.side (account.book.position row.ticker).qty row.qty := by
      cases side : row.side with
      | buy => simpa [opposes, side, Fits] using aside
      | sell => exact closes.1 side
      | short => simpa [opposes, side, Fits] using aside
      | cover => exact closes.2 side
    have fills : ∃ applied, applyFill account.ledgerSettings account.ledger.times account.book
        (executedFill row row.qty terms session.day) (some fees) = .ok applied ∧
        applied.qty = row.qty := by
      refine applyFill_returns sound.margin sound.carried sound.rooted rfl (not_not.mpr unfilled)
        ⟨positive, priced, one_pos⟩ ?_ fits clean
      rintro known ⟨⟩
      exact charge_nonneg charged
    obtain ⟨applied, filled, quantity⟩ := fills
    have persisted : persistFill session account row ⟨row.qty, fees⟩ terms =
        .ok (recordFill session account row applied terms fees, applied.qty) := by
      have traded : ¬ applied.qty ≤ 0 := by
        rw [quantity]
        exact not_le.mpr positive
      refine bind_ok.mpr ⟨applied, ofLedger_ok.mpr filled, ?_⟩
      simp [traded, unfilled]
    cases refused : (if isForced row = true ∨ row.side.closing = true then none
        else if state.initialExcess < -(1 / 10 ^ 9) then some Reason.regTInitial
        else if state.equity * maxGrossFraction account + 1 / 10 ^ 9 <
          state.longMarketValue + state.shortMarketValue then some Reason.grossCap
        else none) with
    | some reason =>
      refine ⟨(account.setState row.orderId .rejected [reason] world.now, .rejected),
        bind_ok.mpr ⟨some ⟨row.qty, fees⟩, sizing, ?_⟩⟩
      exact bind_ok.mpr ⟨some reason, bind_ok.mpr ⟨state, margins, by rw [refused]⟩, rfl⟩
    | none =>
      refine ⟨(recordPenalty world session
        ((recordFill session account row applied terms fees).setState row.orderId .filled
          row.stateReason world.now) row, .filled),
        bind_ok.mpr ⟨some ⟨row.qty, fees⟩, sizing, ?_⟩⟩
      refine bind_ok.mpr ⟨none, bind_ok.mpr ⟨state, margins, by rw [refused]⟩, ?_⟩
      refine bind_ok.mpr ⟨_, persisted, ?_⟩
      simp [quantity, isClose]

/-- A settleable order of a sound account is settled without raising. -/
theorem settleOrder_returns {world : World zone} {session : Session}
    {row : PendingRow} {result : FillResult} (begun : Account) (sound : SoundAccount account)
    (unfilled : account.ledger.fills.lookup row.orderId = none)
    (priced : ∀ terms, result = .filled terms → 0 < terms.fillPx)
    (settleable : Turn.Settleable world ⟨session, begun, account, .execute row result⟩) :
    ∃ outcome, settleOrder world session account row result = .ok outcome := by
  unfold settleOrder
  cases ready : preflight world session account row with
  | stop state reason => exact ⟨_, rfl⟩
  | wait => exact ⟨_, rfl⟩
  | go qty =>
    cases result with
    | pending => exact ⟨_, rfl⟩
    | rejected reason fillTs => exact ⟨_, rfl⟩
    | expired reason => exact ⟨_, rfl⟩
    | filled terms =>
      dsimp only
      split
      · exact ⟨_, rfl⟩
      · rename_i granted
        obtain ⟨observable, apart, clean⟩ := settleable
        simp only [Turn.Observable] at observable
        simp only [Turn.clashes, ready, granted, not_false_eq_true, decide_true, Bool.true_and,
          Bool.and_eq_false_iff] at apart
        simp only [Turn.Clean, ready] at clean
        obtain ⟨positive, closes⟩ := preflight_go ready
        have ruled : ∃ pdt, pdtCheck world.market account row.ticker row.side qty session.day
            terms.fillPx (some terms.fillTs) (some world.now) = .ok pdt := by
          refine pdtCheck_returns ?_
          intro rule
          refine marginState_returns _ _ observable ?_
          rcases apart with apart | unreached
          · exact apart
          · simp [marginReached, rule] at unreached
        obtain ⟨pdt, checked⟩ := ruled
        have forced : isForced { row with qty := qty } = isForced row := rfl
        cases refusal : (if isForced row = true then none else pdt.refusal) with
        | some reason =>
          refine ⟨((afterPdt world session account pdt.flagged).setState row.orderId .rejected
            [reason] world.now, .rejected), bind_ok.mpr ⟨pdt, checked, ?_⟩⟩
          simp only [forced, refusal]
        | none =>
          have allowed : (isForced row || pdt.refusal.isNone) = true := by
            by_cases queued : isForced row = true
            · simp [queued]
            · simpa [queued] using refusal
          have books : ∃ outcome, bookFill world session
              (afterPdt world session account pdt.flagged) { row with qty := qty } terms =
                .ok outcome := by
            refine bookFill_returns (sound.afterPdt world session pdt.flagged) (by simpa) positive
              (priced terms rfl) (by simpa) (by simpa) ?_ (by simpa using fun _ _ => observable (_, _))
            intro large
            rcases apart with apart | unreached
            · simpa using apart
            · -- Below its margin, only the older rule or the smallest fill stops an order.
              unfold marginReached at unreached
              split at unreached
              · cases unreached
              · have reached : minFillUsd ≤ qty * terms.fillPx := large
                rw [checked] at unreached
                dsimp only at unreached
                rw [Bool.and_eq_false_iff] at unreached
                rcases unreached with refused | small
                · exact absurd (allowed.symm.trans refused) (by decide)
                · simp [reached] at small
          obtain ⟨outcome, booked⟩ := books
          refine ⟨outcome, bind_ok.mpr ⟨pdt, checked, ?_⟩⟩
          simp only [forced, refusal]
          exact booked

end TradingEngine.Accounts
