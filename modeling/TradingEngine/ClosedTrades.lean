import TradingEngine.LedgerEvents
import TradingEngine.LotCarry

/-!
# Trade results add up to money

Closed trades are read from a replay: each close reports the lots it matched,
and each matched lot becomes one result, net of its share of the opening and the
closing fee. The worth of a book is its cash plus, for every open lot, its
signed basis and the part of the opening fee that no result has charged yet.
Fills, splits and conversions keep the worth up to the results they report, and
dividends and cash events move it by their amount. A book without lots is worth
its cash.
-/

namespace TradingEngine.Ledger

open KeyedTables OrderTypes Nyse Runs

/-- One matched lot's result. -/
structure Outcome where
  entrySession : Int
  net : ℚ
  netBp : ℚ

/-- Notional and fee of the recorded fill that opened a lot. -/
def openingTerms (ledger : LedgerTables) (orderId : OrderId) : Option (ℚ × ℚ) :=
  (ledger.fills.lookup orderId).map fun row =>
    (row.qty * row.fillPx * row.multiplier, feeTotal row.fees)

/-- Basis of a matched lot at the close's multiplier. -/
def matchedBasis (close : Close) (lot : MatchedLot) : ℚ := lot.qty * lot.avgPx * close.multiplier

/-- The result of one matched lot. -/
def collectLot (close : Close) (opening : ℚ × ℚ) (lot : MatchedLot) : Outcome :=
  let basis := matchedBasis close lot
  let openingFee := opening.2 * basis / opening.1
  let gross := lot.qty * (close.px - lot.avgPx) * close.multiplier *
    (if close.side = .cover then -1 else 1)
  let net := gross - openingFee - close.fee * lot.qty / close.qty
  ⟨lot.openedSession, net, net / basis * 10000⟩

/-- The results of one close, lot by lot. -/
def collect (ledger : LedgerTables) (close : Close) : List MatchedLot → Except LedgerError (List Outcome)
  | [] => .ok []
  | lot :: rest =>
    match openingTerms ledger lot.openOrderId with
    | none => .error (.missingOpening lot.openOrderId)
    | some opening =>
      if opening.1 = 0 ∨ close.qty = 0 ∨ matchedBasis close lot = 0 then .error .dividedByZero
      else
        match collect ledger close rest with
        | .error raised => .error raised
        | .ok more => .ok (collectLot close opening lot :: more)

/-- The results of the closes that one event reports. -/
def collectAll (ledger : LedgerTables) : List Close → Except LedgerError (List Outcome)
  | [] => .ok []
  | close :: rest =>
    match collect ledger close close.matched with
    | .error raised => .error raised
    | .ok found =>
      match collectAll ledger rest with
      | .error raised => .error raised
      | .ok more => .ok (found ++ more)

/-- Replay one event and append the results it reports. -/
def closeEvent (settings : LedgerSettings) (ledger : LedgerTables) (state : Book × List Outcome)
    (event : Event) : Except LedgerError (Book × List Outcome) :=
  match applyEvent settings ledger.times state.1 event with
  | .error raised => .error raised
  | .ok (book, closes) =>
    match collectAll ledger closes with
    | .error raised => .error raised
    | .ok found => .ok (book, state.2 ++ found)

/-- Project matched lots by running the ledger on an isolated copy. The final book
of the copy comes with the results. -/
def closedTrades (zone : Zone) (settings : LedgerSettings) (ledger : LedgerTables) :
    Except LedgerError (Book × List Outcome) :=
  match events zone settings.engine ledger none none with
  | .error raised => .error raised
  | .ok sequence => sequence.foldlM (closeEvent settings ledger) (.opening ledger.initialCash, [])

/-- Opening fee for each dollar of opening notional. -/
def feeShare (ledger : LedgerTables) (orderId : OrderId) : ℚ :=
  ((openingTerms ledger orderId).map fun opening => opening.2 / opening.1).getD 0

/-- Signed basis of a lot and the part of its opening fee not charged yet. -/
def lotWorth (ledger : LedgerTables) (key : Ticker × OrderId) (lot : Lot) : ℚ :=
  lot.avgPx * (lot.qty + |lot.qty| * feeShare ledger key.2)

/-- Cash and the worth of every open lot. -/
def worth (ledger : LedgerTables) (book : Book) : ℚ :=
  book.cash + total (lotWorth ledger) book.lots

/-- Lots have a positive price and were opened by a recorded fill of positive notional. -/
structure Sourced (ledger : LedgerTables) (lots : Lots) : Prop where
  priced : ∀ key lot, lots.lookup key = some lot → 0 < lot.avgPx
  opened : ∀ key lot, lots.lookup key = some lot →
    ∃ opening, openingTerms ledger key.2 = some opening ∧ 0 < opening.1

/-- No comparison with dust is decided by dust when an event is replayed; a buy is
recorded with the quantity it applies. -/
def CleanEvent (settings : LedgerSettings) (times : FillTimes) (book : Book) : Event → Prop
  | .fill orderId row =>
    CleanStep settings book (.fill times (row.toFill orderId) row.fees) ∧
      ∀ qty ∈ (fillQty settings book (row.toFill orderId) row.fees).toOption.join,
        row.side.closing = false → Clean (row.qty - qty)
  | .settlement ticker _ row => CleanStep settings book (.settlement times (row.terms ticker))
  | .split _ _ _ | .dividend _ _ _ | .cash _ _ _ => True

instance (settings : LedgerSettings) (times : FillTimes) (book : Book) :
    ∀ event, Decidable (CleanEvent settings times book event)
  | .fill orderId row => inferInstanceAs (Decidable
      (CleanStep settings book (.fill times (row.toFill orderId) row.fees) ∧
        ∀ qty ∈ (fillQty settings book (row.toFill orderId) row.fees).toOption.join,
          row.side.closing = false → Clean (row.qty - qty)))
  | .settlement ticker _ row =>
    inferInstanceAs (Decidable (CleanStep settings book (.settlement times (row.terms ticker))))
  | .split _ _ _ | .dividend _ _ _ | .cash _ _ _ => inferInstanceAs (Decidable True)

/-- No dust arises on the way of a replay. -/
def CleanReplay (zone : Zone) (settings : LedgerSettings) (ledger : LedgerTables) : Prop :=
  ∀ sequence ∈ (events zone settings.engine ledger none none).toOption,
    AdmissibleM (replayEvent settings ledger.times) (CleanEvent settings ledger.times)
      (.opening ledger.initialCash) sequence

instance (zone : Zone) (settings : LedgerSettings) (ledger : LedgerTables) :
    Decidable (CleanReplay zone settings ledger) :=
  inferInstanceAs (Decidable (∀ sequence ∈ (events zone settings.engine ledger none none).toOption,
    AdmissibleM (replayEvent settings ledger.times) (CleanEvent settings ledger.times)
      (.opening ledger.initialCash) sequence))

variable {lots : Lots} {orderId : OrderId} {qty : ℚ}

/-- Adding a lot adds its worth, also when it is merged: both parts have one sign. -/
theorem addLot_worth (ledger : LedgerTables) {grown : Lots} {ticker : Ticker} {session : Int}
    {px : ℚ} (added : addLot lots ticker session orderId qty px = .ok grown) :
    total (lotWorth ledger) grown =
      total (lotWorth ledger) lots + lotWorth ledger (ticker, orderId) ⟨session, qty, px⟩ := by
  unfold addLot at added
  rcases stored : lots.lookup (ticker, orderId) with _ | old
  · simp only [stored, Except.ok.injEq] at added
    rw [← added, total_insert_new _ _ stored, add_comm]
  · simp only [stored] at added
    split at added
    · cases added
    · rename_i sameSign
      simp only [Except.ok.injEq] at added
      have exchanged := total_replace (lotWorth ledger) ⟨old.openedSession, old.qty + qty,
        if old.qty + qty = 0 then 0 else
          (|old.qty| * old.avgPx + |qty| * px) / |old.qty + qty|⟩ stored
      rw [added] at exchanged
      have merged : lotWorth ledger (ticker, orderId) ⟨old.openedSession, old.qty + qty,
          if old.qty + qty = 0 then 0 else
            (|old.qty| * old.avgPx + |qty| * px) / |old.qty + qty|⟩ =
          lotWorth ledger (ticker, orderId) old +
            lotWorth ledger (ticker, orderId) ⟨session, qty, px⟩ := by
        unfold lotWorth
        rcases mul_nonneg_iff.mp (not_lt.mp sameSign) with ⟨oldLong, long⟩ | ⟨oldShort, short⟩
        · rw [abs_of_nonneg oldLong, abs_of_nonneg long, abs_of_nonneg (add_nonneg oldLong long)]
          by_cases nothing : old.qty + qty = 0
          · have none : old.qty = 0 ∧ qty = 0 := ⟨by linarith, by linarith⟩
            simp [none]
          · rw [if_neg nothing]
            field_simp
        · rw [abs_of_nonpos oldShort, abs_of_nonpos short, abs_of_nonpos (add_nonpos oldShort short)]
          by_cases nothing : old.qty + qty = 0
          · have none : old.qty = 0 ∧ qty = 0 := ⟨by linarith, by linarith⟩
            simp [none]
          · rw [if_neg nothing]
            have divisor : -(old.qty + qty) ≠ 0 := neg_ne_zero.mpr nothing
            field_simp
            ring
      linarith

/-- Adding a priced part of a recorded order keeps every lot sourced. -/
theorem Sourced.add {ledger : LedgerTables} {grown : Lots} {ticker : Ticker} {session : Int}
    {px : ℚ} (sourced : Sourced ledger lots) (priced : 0 < px)
    (some : qty ≠ 0)
    (recorded : ∃ opening, openingTerms ledger orderId = .some opening ∧ 0 < opening.1)
    (added : addLot lots ticker session orderId qty px = .ok grown) : Sourced ledger grown := by
  have inserted : ∃ row : Lot, 0 < row.avgPx ∧ grown = lots.insert (ticker, orderId) row := by
    unfold addLot at added
    rcases stored : lots.lookup (ticker, orderId) with _ | old
    · simp only [stored, Except.ok.injEq] at added
      exact ⟨_, priced, added.symm⟩
    · simp only [stored] at added
      split at added
      · cases added
      · rename_i sameSign
        simp only [Except.ok.injEq] at added
        refine ⟨_, ?_, added.symm⟩
        have oldPriced := sourced.priced _ old stored
        have sum : old.qty + qty ≠ 0 := by
          intro opposite
          have : old.qty * qty = -(qty * qty) := by
            rw [eq_neg_of_add_eq_zero_left opposite]
            ring
          have : 0 < qty * qty := mul_self_pos.mpr some
          linarith [not_lt.mp sameSign]
        simp only [if_neg sum]
        apply div_pos _ (abs_pos.mpr sum)
        have : 0 < |qty| * px := mul_pos (abs_pos.mpr some) priced
        have : 0 ≤ |old.qty| * old.avgPx := mul_nonneg (abs_nonneg _) oldPriced.le
        linarith
  obtain ⟨row, positive, rfl⟩ := inserted
  constructor
  · intro key lot found
    by_cases same : key = (ticker, orderId)
    · subst same
      rw [AList.lookup_insert] at found
      cases found
      exact positive
    · rw [AList.lookup_insert_ne same] at found
      exact sourced.priced key lot found
  · intro key lot found
    by_cases same : key = (ticker, orderId)
    · subst same
      exact recorded
    · rw [AList.lookup_insert_ne same] at found
      exact sourced.opened key lot found

variable {closingShort : Bool}

theorem Sourced.match {ledger : LedgerTables} {times : FillTimes} {ticker : Ticker}
    (sourced : Sourced ledger lots) :
    Sourced ledger (matchLots times lots ticker qty closingShort true).2 := by
  constructor
  · intro key lot found
    obtain ⟨before, present, same⟩ := matchLots_price found
    exact same ▸ sourced.priced key before present
  · intro key lot found
    obtain ⟨before, present, _⟩ := matchLots_price found
    exact sourced.opened key before present

/-- A split keeps every lot sourced. -/
theorem Sourced.split {ledger : LedgerTables} (sourced : Sourced ledger lots)
    (ticker : Ticker) (ex : Int) (ratio : SplitRatio) :
    Sourced ledger (mapRows (splitLot ticker ex ratio.value) lots) := by
  have before : ∀ key lot, (mapRows (splitLot ticker ex ratio.value) lots).lookup key = some lot →
      ∃ old, lots.lookup key = some old ∧ lot = splitLot ticker ex ratio.value key old := by
    intro key lot found
    obtain ⟨row, listed, same⟩ := List.mem_map.mp (mem_of_lookup found)
    cases same
    exact ⟨row.2, lookup_of_mem listed, rfl⟩
  constructor
  · intro key lot found
    obtain ⟨old, present, rfl⟩ := before key lot found
    have priced := sourced.priced key old present
    unfold splitLot
    split
    · exact div_pos priced ratio.positive
    · exact priced
  · intro key lot found
    obtain ⟨old, present, _⟩ := before key lot found
    exact sourced.opened key old present

theorem splitLot_worth (ledger : LedgerTables) (lots : Lots) (ticker : Ticker) (ex : Int)
    (ratio : SplitRatio) :
    total (lotWorth ledger) (mapRows (splitLot ticker ex ratio.value) lots) =
      total (lotWorth ledger) lots := by
  rw [total_mapRows]
  apply total_congr
  intro row _
  have positive := ratio.positive
  unfold splitLot lotWorth
  split
  · simp only [abs_mul, abs_of_pos positive]
    field_simp
  · rfl

/-- Sign of the lots that a reported close takes. -/
def Close.direction (close : Close) : ℚ := if close.side = .cover then -1 else 1

/-- Worth of one share of a closed lot. -/
def shareWorth (ledger : LedgerTables) (direction : ℚ) (orderId : OrderId) (_ : Int) (px : ℚ) : ℚ :=
  px * (direction + feeShare ledger orderId)

/-- Every lot that a close took can be valued: the results exist, and together
they are the proceeds less the closing fee and the worth of what was taken. -/
theorem collect_net (ledger : LedgerTables) (close : Close) (unit : close.multiplier = 1)
    (quantity : close.qty ≠ 0) {matched : List MatchedLot}
    (valued : ∀ lot ∈ matched, lot.qty ≠ 0 ∧ lot.avgPx ≠ 0 ∧
      ∃ opening, openingTerms ledger lot.openOrderId = some opening ∧ opening.1 ≠ 0) :
    ∃ outcomes, collect ledger close matched = .ok outcomes ∧
      (outcomes.map Outcome.net).sum =
        close.direction * close.px * takenQty matched - close.fee * takenQty matched / close.qty -
          takenValue (shareWorth ledger close.direction) matched := by
  induction matched with
  | nil => exact ⟨[], rfl, by simp [takenQty, takenValue]⟩
  | cons lot rest ih =>
    obtain ⟨outcomes, more, sum⟩ :=
      ih fun other listed => valued other (List.mem_cons_of_mem _ listed)
    obtain ⟨some, priced, opening, terms, notional⟩ := valued lot List.mem_cons_self
    have divisible : ¬ (opening.1 = 0 ∨ close.qty = 0 ∨ matchedBasis close lot = 0) := by
      simp [notional, quantity, matchedBasis, some, priced, unit]
    refine ⟨collectLot close opening lot :: outcomes, ?_, ?_⟩
    · simp only [collect, terms, if_neg divisible, more]
    · have share : feeShare ledger lot.openOrderId = opening.2 / opening.1 := by
        simp [feeShare, terms]
      rw [List.map_cons, List.sum_cons, sum]
      simp only [takenQty, takenValue, List.map_cons, List.sum_cons, collectLot, matchedBasis, unit,
        shareWorth, share, Close.direction]
      field_simp
      ring

theorem lotWorth_proportional (ledger : LedgerTables) (ticker : Ticker) (closingShort : Bool)
    (orderId : OrderId) (lot : Lot) (signed : Closes closingShort lot) :
    lotWorth ledger (ticker, orderId) lot = |lot.qty| *
      shareWorth ledger (if closingShort then -1 else 1) orderId lot.openedSession lot.avgPx := by
  cases closingShort
  · simp only [Closes, Bool.false_eq_true, if_false] at signed ⊢
    simp only [lotWorth, shareWorth, abs_of_pos signed]
    ring
  · simp only [Closes, if_true] at signed ⊢
    simp only [lotWorth, shareWorth, abs_of_neg signed]
    ring

theorem Sourced.valued {ledger : LedgerTables} {times : FillTimes} {ticker : Ticker}
    (sourced : Sourced ledger lots) :
    ∀ lot ∈ (matchLots times lots ticker qty closingShort true).1, lot.qty ≠ 0 ∧ lot.avgPx ≠ 0 ∧
      ∃ opening, openingTerms ledger lot.openOrderId = some opening ∧ opening.1 ≠ 0 := by
  intro lot listed
  obtain ⟨positive, stored, found, price⟩ := matchLots_taken listed
  obtain ⟨opening, terms, notional⟩ := sourced.opened _ stored found
  exact ⟨positive.ne', price ▸ (sourced.priced _ stored found).ne', opening, terms, notional.ne'⟩

/-- One close: its results exist, and with what the lots keep they account for
the proceeds and the fee. -/
theorem close_worth {ledger : LedgerTables} {times : FillTimes} {ticker : Ticker} (side : Side)
    (px fee : ℚ)
    (sided : (if side = .cover then (-1 : ℚ) else 1) = if closingShort then -1 else 1)
    (positive : 0 < qty) (held : qty ≤ closableQty lots ticker closingShort)
    (clean : CleanMatch times lots ticker qty closingShort) (sourced : Sourced ledger lots) :
    ∃ outcomes, collect ledger
        ⟨(matchLots times lots ticker qty closingShort true).1, side, qty, px, 1, fee⟩
        (matchLots times lots ticker qty closingShort true).1 = .ok outcomes ∧
      total (lotWorth ledger) (matchLots times lots ticker qty closingShort true).2 +
        (if closingShort then -1 else 1) * (qty * px) - fee =
          total (lotWorth ledger) lots + (outcomes.map Outcome.net).sum := by
  have moved := matchLots_total (shareWorth ledger (if closingShort then -1 else 1))
    (lotWorth ledger) (lotWorth_proportional ledger ticker closingShort) clean
  obtain ⟨outcomes, collected, sum⟩ := collect_net ledger
    ⟨(matchLots times lots ticker qty closingShort true).1, side, qty, px, 1, fee⟩ rfl positive.ne' sourced.valued
  refine ⟨outcomes, collected, ?_⟩
  rw [sum, matchLots_takenQty positive.le held clean]
  simp only [Close.direction, sided]
  rw [mul_div_assoc, div_self positive.ne']
  linarith

variable {settings : LedgerSettings} {book : Book}

/-- An opening fill that replays its recorded quantity up to tolerance, without
dust, replays it exactly: the cash clamp's margin exceeds the relative tolerance. -/
theorem opening_exact {fill : Fill} {fees : Option Fees}
    (traded : fillQty settings book fill fees = .ok (some qty))
    (opens : fill.side.closing = false)
    (close : isClose qty fill.qty (1 / 10 ^ 12) (1 / 10 ^ 12) = true)
    (clean : Clean (fill.qty - qty)) : qty = fill.qty := by
  have bounds := fillQty_traded traded
  have requested : 0 < fill.qty := bounds.positive.trans_le bounds.atMost
  have exactOrClamped : qty = fill.qty ∨ qty < fill.qty * (1 - dust) := by
    unfold fillQty at traded
    rcases checks : fillChecks settings (book.position fill.ticker) fill fees with raised | _ | _
    · simp [checks] at traded
    · simp [checks] at traded
    · obtain ⟨_, priced, multiplied⟩ := fillChecks_positive checks
      simp only [checks, tradedQty] at traded
      rcases side : fill.side with _ | _ | _ | _
      · simp only [side] at traded
        split at traded
        · cases traded
        · split at traded
          · rename_i clamped
            split at traded
            · cases traded
            · rename_i enough
              cases traded
              exact .inr (affordable_bounds priced multiplied clamped.2 enough).2
          · cases traded
            exact .inl rfl
      · simp [side, Side.closing] at opens
      · simp only [side] at traded
        split at traded
        · cases traded
        · cases traded
          exact .inl rfl
      · simp [side, Side.closing] at opens
  rcases exactOrClamped with same | clamped
  · exact same
  · have gap : fill.qty - qty ≤ dust := by
      simp only [isClose, decide_eq_true_eq] at close
      rw [abs_sub_comm, abs_of_nonneg (by linarith [bounds.atMost]), abs_of_pos bounds.positive,
        abs_of_pos requested, max_eq_right bounds.atMost, le_max_iff] at close
      rcases close with relative | absolute
      · have : fill.qty * dust = 1 / 10 ^ 12 * fill.qty := by
          unfold dust
          ring
        linarith
      · exact absolute
    linarith [clean_le_dust clean (by linarith [bounds.atMost]) gap]

theorem converted_worth (ledger : LedgerTables) (into : Ticker) {lot : MatchedLot} {sign ratio : ℚ}
    (unit : |sign| = 1) (positive : 0 < ratio) (some : 0 < lot.qty) :
    lotWorth ledger (into, lot.openOrderId)
        ⟨lot.openedSession, sign * lot.qty * ratio, lot.avgPx / ratio⟩ =
      lot.qty * shareWorth ledger sign lot.openOrderId lot.openedSession lot.avgPx := by
  simp only [lotWorth, shareWorth, abs_mul, unit, abs_of_pos some, abs_of_pos positive]
  field_simp

/-- Converting lots moves their worth to the acquirer and keeps lots sourced. -/
theorem convertLots_worth {ledger : LedgerTables} {into : Ticker} {sign ratio : ℚ}
    (unit : |sign| = 1) (positive : 0 < ratio) {matched : List MatchedLot} {converted : Lots}
    (sourced : Sourced ledger lots)
    (valued : ∀ lot ∈ matched, 0 < lot.qty ∧ 0 < lot.avgPx ∧
      ∃ opening, openingTerms ledger lot.openOrderId = some opening ∧ 0 < opening.1)
    (done : convertLots into sign ratio matched lots = .ok converted) :
    Sourced ledger converted ∧ total (lotWorth ledger) converted =
      total (lotWorth ledger) lots + takenValue (shareWorth ledger sign) matched := by
  induction matched generalizing lots with
  | nil =>
    cases done
    exact ⟨sourced, by simp [takenValue]⟩
  | cons lot rest ih =>
    obtain ⟨some, priced, recorded⟩ := valued lot List.mem_cons_self
    simp only [convertLots] at done
    split at done
    · cases done
    · rename_i grown added
      have signed : sign ≠ 0 := by
        intro zero
        simp [zero] at unit
      have grownSourced := sourced.add (div_pos priced positive)
        (mul_ne_zero (mul_ne_zero signed some.ne') positive.ne') recorded added
      obtain ⟨finished, sum⟩ := ih grownSourced
        (fun other listed => valued other (List.mem_cons_of_mem _ listed)) done
      refine ⟨finished, ?_⟩
      rw [sum, addLot_worth ledger added, converted_worth ledger into unit positive some]
      simp only [takenValue, List.map_cons, List.sum_cons]
      ring

/-- What one replayed event does to a book's worth. -/
structure Accounted (ledger : LedgerTables) (book : Book) (event : Event) (next : Book)
    (closes : List Close) : Prop where
  carried : Carried next
  sourced : Sourced ledger next.lots
  worth : ∃ outcomes, collectAll ledger closes = .ok outcomes ∧
    worth ledger next = worth ledger book + (outcomes.map Outcome.net).sum + event.dollars

theorem collectAll_one {ledger : LedgerTables} {close : Close} {outcomes : List Outcome}
    (collected : collect ledger close close.matched = .ok outcomes) :
    collectAll ledger [close] = .ok outcomes := by
  simp [collectAll, collected]

/-- A closing fill is accounted for by the results of its matched lots. -/
theorem closing_accounted {ledger : LedgerTables} {row : FillRow} {trades : List DayTrade}
    {closes : List Close} (unit : row.multiplier = 1) (carried : Carried book)
    (sourced : Sourced ledger book.lots) (closing : row.side.closing = true)
    (traded : Traded (book.position row.ticker).qty (row.toFill orderId) qty)
    (clean : CleanMatch ledger.times book.lots row.ticker qty (row.side = .cover))
    (moved : moveLots settings ledger.times book (row.toFill orderId) (feeTotal row.fees) qty =
      .ok (lots, trades, closes))
    (nextCarried : Carried (filledBook book (row.toFill orderId) (feeTotal row.fees) qty lots trades)) :
    Accounted ledger book (.fill orderId row)
      (filledBook book (row.toFill orderId) (feeTotal row.fees) qty lots trades) closes := by
  have available := lotSum_le_closable book.lots row.ticker
  rw [carried.carried] at available
  have sided := traded.sided
  simp only [FillRow.toFill] at sided
  have held : qty ≤ closableQty book.lots row.ticker (row.side = .cover) := by
    rcases side : row.side with _ | _ | _ | _ <;> simp only [side, Side.closing] at closing sided
    · cases closing
    · exact sided.2.trans available.1
    · cases closing
    · exact sided.2.trans available.2
  have taken := matchLots_takenQty traded.positive.le held clean
  have some : (matchLots ledger.times book.lots row.ticker qty (row.side = .cover) true).1.isEmpty =
      false := by
    rw [List.isEmpty_eq_false_iff]
    intro empty
    rw [empty] at taken
    exact traded.positive.ne taken
  obtain ⟨outcomes, collected, sum⟩ := close_worth row.side row.fillPx
    (feeTotal row.fees) (by by_cases cover : row.side = .cover <;> simp [cover])
    traded.positive held clean sourced
  simp only [FillRow.toFill] at moved nextCarried ⊢
  simp only [moveLots, closing, if_true, Except.ok.injEq, Prod.mk.injEq] at moved
  obtain ⟨rfl, rfl, rfl⟩ := moved
  refine ⟨nextCarried, sourced.match, outcomes, ?_, ?_⟩
  · simp only [some, Bool.false_eq_true, if_false, unit]
    exact collectAll_one collected
  · have sign : row.side.sign = -(if (decide (row.side = .cover)) = true then -1 else 1) := by
      rcases side : row.side with _ | _ | _ | _ <;> simp [side, Side.closing] at closing <;>
        simp [Side.sign]
    simp only [worth, filledBook, Event.dollars, unit, sign]
    linarith

/-- An opening fill is accounted for by the worth of the lot it opens. -/
theorem opening_accounted {ledger : LedgerTables} {row : FillRow} {trades : List DayTrade}
    {closes : List Close} (recorded : ledger.fills.lookup orderId = some row)
    (unit : row.multiplier = 1) (sourced : Sourced ledger book.lots)
    (opens : row.side.closing = false)
    (traded : Traded (book.position row.ticker).qty (row.toFill orderId) row.qty)
    (moved : moveLots settings ledger.times book (row.toFill orderId) (feeTotal row.fees) row.qty =
      .ok (lots, trades, closes))
    (nextCarried : Carried
      (filledBook book (row.toFill orderId) (feeTotal row.fees) row.qty lots trades)) :
    Accounted ledger book (.fill orderId row)
      (filledBook book (row.toFill orderId) (feeTotal row.fees) row.qty lots trades) closes := by
  obtain ⟨positive, _, priced, multiplied, _⟩ := traded
  simp only [FillRow.toFill] at priced multiplied
  simp only [moveLots, FillRow.toFill, opens, Bool.false_eq_true, if_false, openLot] at moved
  split at moved
  · cases moved
  rename_i grown added
  cases moved
  have notional : 0 < row.qty * row.fillPx * row.multiplier :=
    mul_pos (mul_pos positive priced) multiplied
  have terms : openingTerms ledger orderId =
      some (row.qty * row.fillPx * row.multiplier, feeTotal row.fees) := by
    simp [openingTerms, recorded]
  have signed : |row.side.sign| = 1 := by rcases row.side with _ | _ | _ | _ <;> simp [Side.sign]
  have nonzero : row.side.sign * row.qty ≠ 0 := by
    rw [← abs_ne_zero, abs_mul, signed, one_mul]
    exact abs_ne_zero.mpr positive.ne'
  have share : feeShare ledger orderId = feeTotal row.fees / (row.qty * row.fillPx) := by
    simp [feeShare, terms, unit]
  have lot : lotWorth ledger (row.ticker, orderId)
      ⟨row.fillDate, row.side.sign * row.qty, row.fillPx⟩ =
      row.side.sign * (row.qty * row.fillPx) + feeTotal row.fees := by
    simp only [lotWorth, share, abs_mul, signed, abs_of_pos positive]
    field_simp
  refine ⟨nextCarried, sourced.add priced nonzero ⟨_, terms, notional⟩ added, [], rfl, ?_⟩
  simp only [worth, filledBook, FillRow.toFill, Event.dollars, unit]
  rw [addLot_worth ledger added, lot]
  simp only [List.map_nil, List.sum_nil]
  ring

/-- A recorded fill with multiplier one is accounted for. -/
theorem fill_accounted {ledger : LedgerTables} {next : Book} {row : FillRow} {closes : List Close}
    (account : settings.engine = .account) (recorded : ledger.fills.lookup orderId = some row)
    (unit : row.multiplier = 1) (carried : Carried book) (sourced : Sourced ledger book.lots)
    (clean : CleanEvent settings ledger.times book (.fill orderId row))
    (applied : applyEvent settings ledger.times book (.fill orderId row) = .ok (next, closes)) :
    Accounted ledger book (.fill orderId row) next closes := by
  simp only [applyEvent] at applied
  rcases filled : applyFill settings ledger.times book (row.toFill orderId) row.fees with raised | done
  · simp [filled] at applied
  simp only [filled] at applied
  split at applied
  swap
  · cases applied
  rename_i close
  cases applied
  have nextCarried := (applyFill_carried account carried clean.1).1 done filled
  rcases applyFill_cases filled with ⟨_, rfl⟩ | ⟨qty, lots, trades, closes, quantity, moved, rfl⟩
  · exact ⟨carried, sourced, [], rfl, by simp [Event.dollars]⟩
  have traded := fillQty_traded quantity
  by_cases closing : row.side.closing = true
  · exact closing_accounted unit carried sourced closing traded
      (clean.1 qty (by simp [quantity, Except.toOption]) closing) moved nextCarried
  · have opens : row.side.closing = false := by simpa using closing
    have exact : qty = row.qty := opening_exact quantity opens close
      (clean.2 qty (by simp [quantity, Except.toOption]) opens)
    subst exact
    exact opening_accounted recorded unit sourced opens traded moved nextCarried

/-- A settlement is accounted for when stock is converted without a cash leg. -/
theorem settlement_accounted {ledger : LedgerTables} {next : Book}
    {ticker : Ticker} {effective : Int} {row : SettlementRow} {closes : List Close}
    (account : settings.engine = .account) (exchanged : row.kind = .stock → row.price = 0)
    (carried : Carried book) (sourced : Sourced ledger book.lots)
    (clean : CleanEvent settings ledger.times book (.settlement ticker effective row))
    (applied : applyEvent settings ledger.times book (.settlement ticker effective row) =
      .ok (next, closes)) :
    Accounted ledger book (.settlement ticker effective row) next closes := by
  have nextCarried := (applySettlementEvent_carried account carried clean).1 (next, closes) applied
  obtain ⟨sound, paid⟩ := applySettlementEvent_cases applied
  have whole : settledQty settings book (row.terms ticker) = (book.position ticker).qty := by
    simp [settledQty, account, SettlementRow.terms]
  have cleanMatch := clean sound
  simp only [whole] at cleanMatch paid
  simp only [SettlementRow.terms] at cleanMatch paid
  have held := holding_closable carried ticker
  rcases paid with ⟨_, book', reported⟩ | ⟨stock, into, ratio, lots, _, exchange, converted, book', reported⟩
  · subst book' reported
    refine ⟨nextCarried, sourced.match, ?_⟩
    by_cases flat : (book.position ticker).qty = 0
    · refine ⟨[], ?_, ?_⟩
      · simp [collectAll, collect, flat, settledLots, matchLots, dust]
      · simp [worth, paidOut, settledLots, matchLots, flat, Event.dollars, dust]
    · obtain ⟨outcomes, collected, sum⟩ := close_worth
        (if (book.position ticker).qty < 0 then .cover else .sell) row.price 0
        (by by_cases short : (book.position ticker).qty < 0 <;> simp [short])
        (abs_pos.mpr flat) held cleanMatch sourced
      refine ⟨outcomes, collectAll_one collected, ?_⟩
      have signed : (if decide ((book.position ticker).qty < 0) = true then (-1 : ℚ) else 1) *
          (|(book.position ticker).qty| * row.price) = (book.position ticker).qty * row.price := by
        by_cases short : (book.position ticker).qty < 0
        · simp [short, abs_of_neg short]
        · simp [short, abs_of_nonneg (not_lt.mp short)]
      rw [signed] at sum
      simp only [worth, paidOut, settledLots, Event.dollars]
      linarith
  · subst book' reported
    have positive : 0 < ratio := by
      simp only [checkApplication, numericTerms, SettlementRow.terms, stock, exchange,
        Bool.and_eq_true] at sound
      simpa using sound.1.2
    have unit : |(if (book.position ticker).qty < 0 then (-1 : ℚ) else 1)| = 1 := by
      split <;> simp
    have taken : ∀ lot ∈ (settledLots ledger.times book ticker (book.position ticker).qty).1,
        0 < lot.qty ∧ 0 < lot.avgPx ∧
          ∃ opening, openingTerms ledger lot.openOrderId = some opening ∧ 0 < opening.1 := by
      intro lot listed
      obtain ⟨some, stored, found, price⟩ := matchLots_taken listed
      exact ⟨some, price ▸ sourced.priced _ stored found, sourced.opened _ stored found⟩
    obtain ⟨nextSourced, sum⟩ := convertLots_worth unit positive sourced.match taken converted
    refine ⟨nextCarried, nextSourced, [], rfl, ?_⟩
    have moved := matchLots_total
      (shareWorth ledger (if decide ((book.position ticker).qty < 0) = true then -1 else 1))
      (lotWorth ledger) (lotWorth_proportional ledger ticker _) cleanMatch
    simp only [decide_eq_true_eq] at moved
    simp only [worth, convertedBook, paidOut, exchanged stock, Event.dollars, sum, settledLots,
      List.map_nil, List.sum_nil]
    linarith

/-- Every recorded event of an account's ledger is accounted for. -/
theorem event_accounted {ledger : LedgerTables} {next : Book}
    {event : Event} {closes : List Close} (account : settings.engine = .account)
    (unit : ∀ row ∈ ledger.fills.entries, row.2.multiplier = 1)
    (exchanged : ∀ row ∈ ledger.settlements.entries, row.2.kind = .stock → row.2.price = 0)
    (recorded : event ∈ ledger.rows) (carried : Carried book) (sourced : Sourced ledger book.lots)
    (clean : CleanEvent settings ledger.times book event)
    (applied : applyEvent settings ledger.times book event = .ok (next, closes)) :
    Accounted ledger book event next closes := by
  simp only [LedgerTables.rows, List.mem_append, List.mem_map] at recorded
  rcases recorded with (((⟨row, _, rfl⟩ | ⟨row, _, rfl⟩) | ⟨row, listed, rfl⟩) | ⟨row, _, rfl⟩) |
    ⟨row, listed, rfl⟩
  · cases applied
    refine ⟨applySplit_carried carried _ _ _, ?_, [], rfl, ?_⟩
    · simpa only [applySplit_lots] using sourced.split _ _ _
    · simp only [worth, applySplit_lots, applySplit_cash, splitLot_worth, Event.dollars,
        List.map_nil, List.sum_nil, add_zero]
  · simp only [applyEvent] at applied
    split at applied
    · cases applied
    · cases applied
      refine ⟨⟨carried.carried, carried.rowed⟩, sourced, [], rfl, ?_⟩
      simp only [worth, Book.credit, Event.dollars, List.map_nil, List.sum_nil]
      ring
  · exact settlement_accounted account (exchanged row listed) carried sourced clean applied
  · cases applied
    refine ⟨⟨carried.carried, carried.rowed⟩, sourced, [], rfl, ?_⟩
    simp only [worth, Book.credit, Event.dollars, List.map_nil, List.sum_nil]
    ring
  · exact fill_accounted account (lookup_of_mem listed) (unit row listed) carried sourced clean
      applied

/-- A replayed sequence reports results, and the final worth is the first one with
the results and the dollars of its dividends and cash events. Induction on the
sequence; the invariant is that lots carry the position and are sourced. -/
theorem replay_accounted {ledger : LedgerTables}
    (account : settings.engine = .account)
    (unit : ∀ row ∈ ledger.fills.entries, row.2.multiplier = 1)
    (exchanged : ∀ row ∈ ledger.settlements.entries, row.2.kind = .stock → row.2.price = 0)
    {sequence : List Event} (recorded : ∀ event ∈ sequence, event ∈ ledger.rows)
    {final : Book} (reported : List Outcome) (carried : Carried book)
    (sourced : Sourced ledger book.lots)
    (clean : AdmissibleM (replayEvent settings ledger.times) (CleanEvent settings ledger.times)
      book sequence)
    (replayed : sequence.foldlM (replayEvent settings ledger.times) book = .ok final) :
    ∃ outcomes, sequence.foldlM (closeEvent settings ledger) (book, reported) =
        .ok (final, reported ++ outcomes) ∧
      worth ledger final = worth ledger book + (outcomes.map Outcome.net).sum +
        (sequence.map Event.dollars).sum := by
  induction sequence generalizing book reported with
  | nil =>
    cases replayed
    exact ⟨[], by simp [pure, Except.pure], by simp⟩
  | cons event rest ih =>
    rw [List.foldlM_cons] at replayed ⊢
    rcases applied : applyEvent settings ledger.times book event with raised | ⟨next, closes⟩
    · simp [replayEvent, applied, Except.map, bind, Except.bind] at replayed
    · have stepped : replayEvent settings ledger.times book event = .ok next := by
        simp [replayEvent, applied, Except.map]
      obtain ⟨nextCarried, nextSourced, found, collected, sum⟩ := event_accounted account unit
        exchanged (recorded event List.mem_cons_self) carried sourced clean.1 applied
      simp only [stepped, bind, Except.bind] at replayed
      obtain ⟨more, continued, total⟩ := ih
        (fun other listed => recorded other (List.mem_cons_of_mem _ listed)) (reported ++ found)
        nextCarried nextSourced (clean.2 next (by simp [stepped, Except.toOption])) replayed
      refine ⟨found ++ more, ?_, ?_⟩
      · simp only [closeEvent, applied, collected, bind, Except.bind]
        rw [continued, List.append_assoc]
      · rw [total, sum]
        simp only [List.map_append, List.sum_append, List.map_cons, List.sum_cons]
        ring

theorem rows_dollars (ledger : LedgerTables) :
    (ledger.rows.map Event.dollars).sum =
      total (fun _ row => row.amount) ledger.dividends +
        total (fun _ row => row.amount) ledger.cashEvents := by
  simp only [LedgerTables.rows, List.map_append, List.sum_append, List.map_map, Function.comp_def,
    Event.dollars, List.map_const', List.sum_replicate, smul_zero, zero_add, add_zero, total]

/-- For every account ledger that replays, with fills of multiplier one and stock
conversions without a cash leg, without dust on the way and without a lot at the
end: the closed trades can be projected, and the final cash is the initial cash
plus their net dollars, the dividends and the cash events. -/
theorem profit_and_loss_conserved {zone : Zone} {settings : LedgerSettings} {ledger : LedgerTables}
    {book : Book} (account : settings.engine = .account)
    (unit : ∀ row ∈ ledger.fills.entries, row.2.multiplier = 1)
    (exchanged : ∀ row ∈ ledger.settlements.entries, row.2.kind = .stock → row.2.price = 0)
    (replayed : rebuildState zone settings ledger none = .ok book)
    (clean : CleanReplay zone settings ledger) (flat : book.lots = ∅) :
    ∃ outcomes, closedTrades zone settings ledger = .ok (book, outcomes) ∧
      book.cash = ledger.initialCash + (outcomes.map Outcome.net).sum +
        total (fun _ row => row.amount) ledger.dividends +
        total (fun _ row => row.amount) ledger.cashEvents := by
  unfold rebuildState at replayed
  unfold closedTrades
  rcases listed : events zone settings.engine ledger none none with raised | sequence
  · simp [listed] at replayed
  simp only [listed] at replayed ⊢
  have reordered : sequence.Perm ledger.rows := by
    unfold events at listed
    split at listed
    · cases listed
    · cases listed
      simpa only [Option.all_none, Bool.and_self, List.filter_true] using
        inOrder_perm zone settings.engine ledger.rows
  obtain ⟨outcomes, projected, sum⟩ := replay_accounted account unit exchanged
    (fun event member => reordered.mem_iff.mp member) [] (opening_carried ledger.initialCash)
    ⟨by simp [Book.opening], by simp [Book.opening]⟩
    (clean sequence (by simp [listed, Except.toOption])) replayed
  refine ⟨outcomes, by simpa using projected, ?_⟩
  rw [(reordered.map Event.dollars).sum_eq, rows_dollars] at sum
  simp only [worth, flat, Book.opening, total_empty, add_zero] at sum
  linarith

/-- A book that bought, received a dividend, split, converted, shorted, paid
interest and closed everything, with fees on the way. -/
def roundTrip : LedgerTables where
  initialCash := 1000
  splits := tableOf [(("OLD", 739003), ⟨2, two_positive⟩)]
  dividends := tableOf [(("OLD", 739002), ⟨4, 1 / 2, 2⟩)]
  settlements := tableOf [(("OLD", 739004), ⟨.stock, 8, 0, some "NEW", some (1 / 2), 0⟩),
    (("GONE", 739006), ⟨.worthless, -3, 0, none, none, 0⟩)]
  cashEvents := tableOf [((739005, 1), ⟨.marginInterest, -1 / 4, none, none, "", 0, interest_unnamed,
    interest_unborrowed⟩)]
  fills := tableOf
    [(1, ⟨"OLD", .buy, 4, 739001, 25, 25, some (opened daylightTime 739001), 1, some (.ofTotal 1)⟩),
      (2, ⟨"GONE", .short, 3, 739002, 7, 7, some (opened daylightTime 739002), 1,
        some (.ofTotal (1 / 2))⟩),
      (3, ⟨"NEW", .sell, 1, 739005, 30, 30, some (closed daylightTime 739005), 1,
        some (.ofTotal (3 / 4))⟩),
      (4, ⟨"NEW", .sell, 3, 739006, 20, 20, some (closed daylightTime 739006), 1, none⟩)]

theorem roundTrip_conserved :
    ∃ book outcomes, closedTrades daylightTime ⟨.account, .margin⟩ roundTrip = .ok (book, outcomes) ∧
      book.cash = roundTrip.initialCash + (outcomes.map Outcome.net).sum +
        total (fun _ row => row.amount) roundTrip.dividends +
        total (fun _ row => row.amount) roundTrip.cashEvents := by
  have replayed : ∃ book, rebuildState daylightTime ⟨.account, .margin⟩ roundTrip none = .ok book ∧
      book.lots = ∅ := by
    rcases result : rebuildState daylightTime ⟨.account, .margin⟩ roundTrip none with raised | book
    · have completes : (rebuildState daylightTime ⟨.account, .margin⟩ roundTrip none).isOk = true := by
        decide +kernel
      simp [result, Except.isOk, Except.toBool] at completes
    · refine ⟨book, rfl, ?_⟩
      have empty : (rebuildState daylightTime ⟨.account, .margin⟩ roundTrip none).toOption.map
          (fun book => book.lots.entries) = some [] := by decide +kernel
      exact AList.ext (by simpa [result, Except.toOption] using empty)
  obtain ⟨book, rebuilt, flat⟩ := replayed
  exact ⟨book, profit_and_loss_conserved rfl (by decide +kernel) (by decide +kernel) rebuilt
    (by decide +kernel) flat⟩

end TradingEngine.Ledger
