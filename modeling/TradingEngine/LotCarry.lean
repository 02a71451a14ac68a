import TradingEngine.LotMatching
import TradingEngine.Runs

/-!
# Lots carry the position

Positions and lots are written by different statements. The invariant is that an
instrument's lots always add up to its position and that an instrument with a
lot has a position row, so that a split finds a row to change. Every fill, split
and settlement keeps it, whichever signs the lots of one instrument have: a
close takes only lots of its own sign, and there are always enough of them,
since lots of the other sign only lower the net position.
-/

namespace TradingEngine.Ledger

open KeyedTables OrderTypes Runs

/-- The lots of every instrument add up to its position. -/
structure Carried (book : Book) : Prop where
  carried : ∀ ticker, lotSum book.lots ticker = (book.position ticker).qty
  rowed : ∀ key ∈ book.lots, key.1 ∈ book.positions

/-- A call of the ledger. Recorded fill times are those of the moment of the call. -/
inductive LedgerStep where
  | fill (times : FillTimes) (fill : Fill) (fees : Option Fees)
  | split (ticker : Ticker) (ex : Int) (ratio : ℚ)
  | settlement (times : FillTimes) (terms : SettlementTerms)

/-- Perform one call. -/
def perform (settings : LedgerSettings) (book : Book) : LedgerStep → Except LedgerError Book
  | .fill times fill fees => (applyFill settings times book fill fees).map Applied.book
  | .split ticker ex ratio => .ok (applySplit book ticker ex ratio)
  | .settlement times terms => (applySettlementEvent settings times book terms).map Prod.fst

/-- The book after a call. A call that raises is rolled back. -/
def after (settings : LedgerSettings) (book : Book) (step : LedgerStep) : Book :=
  match perform settings book step with
  | .ok next => next
  | .error _ => book

/-- No quantity that the call compares with dust is dust. -/
def CleanStep (settings : LedgerSettings) (book : Book) : LedgerStep → Prop
  | .fill times fill fees =>
    ∀ qty ∈ (fillQty settings book fill fees).toOption.join, fill.side.closing = true →
      CleanMatch times book.lots fill.ticker qty (fill.side = .cover)
  | .split _ _ _ => True
  | .settlement times terms =>
    checkApplication book terms = true →
      CleanMatch times book.lots terms.ticker |settledQty settings book terms|
        (settledQty settings book terms < 0)

instance (settings : LedgerSettings) (book : Book) :
    ∀ step, Decidable (CleanStep settings book step)
  | .fill times fill fees => inferInstanceAs (Decidable
      (∀ qty ∈ (fillQty settings book fill fees).toOption.join, fill.side.closing = true →
        CleanMatch times book.lots fill.ticker qty (fill.side = .cover)))
  | .split _ _ _ => inferInstanceAs (Decidable True)
  | .settlement times terms => inferInstanceAs (Decidable
      (checkApplication book terms = true →
        CleanMatch times book.lots terms.ticker |settledQty settings book terms|
          (settledQty settings book terms < 0)))

theorem opening_carried (cash : ℚ) : Carried (Book.opening cash) := by
  refine ⟨fun ticker => by simp [lotSum, Book.position, Book.opening], ?_⟩
  intro key member
  simp [Book.opening] at member

variable {book : Book}

theorem Carried.passes (carried : Carried book) (settings : LedgerSettings) :
    assertLotsMatchPositions settings book = .ok book := by
  have agreed : lotsMatchPositions book = true := by
    unfold lotsMatchPositions
    simp only [List.all_eq_true, carried.carried, BEq.rfl, Bool.true_and, Bool.or_eq_true,
      decide_eq_true_eq, isClose, sub_self, abs_zero]
    intro ticker _
    right
    exact le_max_of_le_right (by norm_num)
  unfold assertLotsMatchPositions
  simp [agreed]

theorem position_insert (book : Book) (ticker other : Ticker) (row : Position) :
    ((book.positions.insert ticker row).lookup other).getD ⟨0, 0⟩ =
      if other = ticker then row else book.position other := by
  by_cases same : other = ticker
  · subst same
    simp
  · simp [AList.lookup_insert_ne same, Book.position, same]

variable {lots : Lots} {qty : ℚ}

/-- Adding a lot adds its signed quantity to its instrument. -/
theorem addLot_lotSum {grown : Lots} {ticker : Ticker} {session : Int} {orderId : OrderId}
    {px : ℚ} (added : addLot lots ticker session orderId qty px = .ok grown)
    (other : Ticker) :
    lotSum grown other = lotSum lots other + if ticker = other then qty else 0 := by
  unfold addLot at added
  rcases stored : lots.lookup (ticker, orderId) with _ | old
  · simp only [stored, Except.ok.injEq] at added
    rw [← added, lotSum, total_insert_new _ _ stored]
    simp only [lotSum]
    ring
  · simp only [stored] at added
    split at added
    · cases added
    · simp only [Except.ok.injEq] at added
      have exchanged := total_replace
        (fun (key : Ticker × OrderId) (lot : Lot) => if key.1 = other then lot.qty else 0)
        ⟨old.openedSession, old.qty + qty, if old.qty + qty = 0 then 0 else
          (|old.qty| * old.avgPx + |qty| * px) / |old.qty + qty|⟩ stored
      rw [← added, lotSum, lotSum]
      by_cases same : ticker = other
      · simp only [same, if_true] at exchanged ⊢
        linarith
      · simp only [same, if_false] at exchanged ⊢
        linarith

theorem addLot_keys {grown : Lots} {ticker : Ticker} {session : Int} {orderId : OrderId}
    {px : ℚ} (added : addLot lots ticker session orderId qty px = .ok grown)
    {key : Ticker × OrderId} (member : key ∈ grown) : key.1 = ticker ∨ key ∈ lots := by
  have inserted : ∃ row, grown = lots.insert (ticker, orderId) row := by
    unfold addLot at added
    split at added
    · exact ⟨_, (Except.ok.inj added).symm⟩
    · split at added
      · cases added
      · exact ⟨_, (Except.ok.inj added).symm⟩
  obtain ⟨row, rfl⟩ := inserted
  rw [AList.mem_insert] at member
  rcases member with rfl | earlier
  · exact .inl rfl
  · exact .inr earlier

/-- Lots of the closing sign cover the net position. -/
theorem lotSum_le_closable (lots : Lots) (ticker : Ticker) :
    lotSum lots ticker ≤ closableQty lots ticker false ∧
      -lotSum lots ticker ≤ closableQty lots ticker true := by
  constructor
  · apply total_le_total
    intro row _
    by_cases named : row.1.1 = ticker
    · by_cases long : 0 < row.2.qty
      · simp [named, Closes, long, le_abs_self]
      · simp only [named, Closes, long, if_true, if_false, and_false, Bool.false_eq_true]
        linarith
    · simp [named]
  · rw [lotSum, neg_eq_neg_one_mul, mul_comm, ← total_mul]
    apply total_le_total
    intro row _
    by_cases named : row.1.1 = ticker
    · by_cases short : row.2.qty < 0
      · simp [named, Closes, short, neg_le_abs]
      · simp only [named, Closes, short, if_true, if_false, and_false]
        linarith
    · simp [named]

/-- A close of a quantity that the lots hold moves its instrument's sum by it. -/
theorem matchLots_lotSum {times : FillTimes} {ticker : Ticker}
    {closingShort : Bool} (nonneg : 0 ≤ qty) (held : qty ≤ closableQty lots ticker closingShort)
    (clean : CleanMatch times lots ticker qty closingShort) (other : Ticker) :
    lotSum (matchLots times lots ticker qty closingShort true).2 other =
      lotSum lots other - if ticker = other then (if closingShort then -qty else qty) else 0 := by
  let unit : ℚ := if ticker = other then (if closingShort then -1 else 1) else 0
  have proportional : ∀ (id : OrderId) (lot : Lot), Closes closingShort lot →
      (if (ticker, id).1 = other then lot.qty else 0) = |lot.qty| * unit := by
    intro id lot signed
    simp only [unit]
    cases closingShort
    · simp only [Closes, Bool.false_eq_true, if_false] at signed ⊢
      split_ifs <;> simp [abs_of_pos signed]
    · simp only [Closes, if_true] at signed ⊢
      split_ifs <;> simp [abs_of_neg signed]
  have moved := matchLots_total (fun _ _ _ => unit)
    (fun key lot => if key.1 = other then lot.qty else 0) proportional clean
  have value : takenValue (fun _ _ _ => unit)
      (matchLots times lots ticker qty closingShort true).1 = qty * unit := by
    rw [takenValue, List.sum_map_mul_right, ← takenQty, matchLots_takenQty nonneg held clean]
  rw [value] at moved
  simp only [lotSum]
  simp only [unit] at moved
  split_ifs at moved ⊢ <;> linarith

/-- A traded quantity and the position it meets. -/
structure Traded (held : ℚ) (fill : Fill) (qty : ℚ) : Prop where
  positive : 0 < qty
  atMost : qty ≤ fill.qty
  priced : 0 < fill.px
  multiplied : 0 < fill.multiplier
  sided : match fill.side with
    | .buy => 0 ≤ held
    | .sell => 0 < held ∧ qty ≤ held
    | .short => held ≤ 0
    | .cover => held < 0 ∧ qty ≤ -held

variable {settings : LedgerSettings}

theorem fillChecks_positive {held : Position} {fill : Fill}
    {fees : Option Fees} (passed : fillChecks settings held fill fees = .ok true) :
    0 < fill.qty ∧ 0 < fill.px ∧ 0 < fill.multiplier := by
  unfold fillChecks at passed
  by_contra bad
  simp [bad] at passed

/-- The cash clamp leaves a positive quantity that is smaller than the requested
one by more than the clamp's own margin. -/
theorem affordable_bounds {available px multiplier : ℚ} (priced : 0 < px)
    (multiplied : 0 < multiplier) (short : available < qty * px * multiplier)
    (enough : ¬ max available 0 / (px * multiplier) * (1 - dust) * px * multiplier < minFillUsd) :
    0 < max available 0 / (px * multiplier) * (1 - dust) ∧
      max available 0 / (px * multiplier) * (1 - dust) < qty * (1 - dust) := by
  have share : (0 : ℚ) < 1 - dust := by norm_num [dust]
  have unit : 0 < px * multiplier := mul_pos priced multiplied
  have worth : max available 0 / (px * multiplier) * (1 - dust) * px * multiplier =
      max available 0 * (1 - dust) := by
    field_simp
  rw [worth] at enough
  have funded : 0 < max available 0 := by
    by_contra none
    have zero : max available 0 = 0 := le_antisymm (not_lt.mp none) (le_max_right _ _)
    rw [zero] at enough
    norm_num [minFillUsd] at enough
  have positive : max available 0 = available := by
    rcases le_total available 0 with nonpos | nonneg
    · rw [max_eq_right nonpos] at funded
      exact absurd funded (lt_irrefl 0)
    · exact max_eq_left nonneg
  refine ⟨mul_pos (div_pos funded unit) share, mul_lt_mul_of_pos_right ?_ share⟩
  rw [div_lt_iff₀ unit, positive]
  linarith

/-- Every traded quantity is positive, at most the requested one and never
crosses zero. -/
theorem fillQty_traded {fill : Fill}
    {fees : Option Fees} (traded : fillQty settings book fill fees = .ok (some qty)) :
    Traded (book.position fill.ticker).qty fill qty := by
  unfold fillQty at traded
  rcases checks : fillChecks settings (book.position fill.ticker) fill fees with raised | passed
  · simp [checks] at traded
  cases passed with
  | false => simp [checks] at traded
  | true =>
    obtain ⟨requested, priced, multiplied⟩ := fillChecks_positive checks
    simp only [checks, tradedQty] at traded
    rcases side : fill.side with _ | _ | _ | _
    · simp only [side] at traded
      split at traded
      · cases traded
      · rename_i long
        push Not at long
        split at traded
        · rename_i clamped
          split at traded
          · cases traded
          · rename_i enough
            obtain ⟨positive, below⟩ := affordable_bounds priced multiplied clamped.2 enough
            have margin : 0 < fill.qty * dust := mul_pos requested (by norm_num [dust])
            cases traded
            exact ⟨positive, by linarith, priced, multiplied, by simpa only [side] using long⟩
        · cases traded
          exact ⟨requested, le_refl _, priced, multiplied, by simpa only [side] using long⟩
    · simp only [side] at traded
      split at traded
      · cases traded
      · rename_i long
        push Not at long
        cases traded
        exact ⟨lt_min requested long, min_le_left _ _, priced, multiplied,
          by simpa only [side] using ⟨long, min_le_right _ _⟩⟩
    · simp only [side] at traded
      split at traded
      · cases traded
      · rename_i flat
        push Not at flat
        cases traded
        exact ⟨requested, le_refl _, priced, multiplied, by simpa only [side] using flat⟩
    · simp only [side] at traded
      split at traded
      · cases traded
      · rename_i short
        push Not at short
        cases traded
        rw [abs_of_neg short]
        exact ⟨lt_min requested (by linarith), min_le_left _ _, priced, multiplied,
          by simpa only [side] using ⟨short, min_le_right _ _⟩⟩

variable {trades : List DayTrade}

/-- Moving the lots of a traded quantity moves the instrument's sum by it. -/
theorem moveLots_lotSum {times : FillTimes} {fill : Fill}
    {fee : ℚ} {closes : List Close}
    (carried : Carried book) (traded : Traded (book.position fill.ticker).qty fill qty)
    (origin : fill.origin ≠ none)
    (clean : fill.side.closing = true →
      CleanMatch times book.lots fill.ticker qty (fill.side = .cover))
    (moved : moveLots settings times book fill fee qty = .ok (lots, trades, closes))
    (other : Ticker) :
    lotSum lots other =
      lotSum book.lots other + if fill.ticker = other then fill.side.sign * qty else 0 := by
  have available := lotSum_le_closable book.lots fill.ticker
  rw [carried.carried] at available
  have sided := traded.sided
  unfold moveLots at moved
  rcases side : fill.side with _ | _ | _ | _
  · obtain ⟨⟨orderId, session⟩, known⟩ := Option.ne_none_iff_exists'.mp origin
    simp only [side, Side.closing, Bool.false_eq_true, if_false, openLot, known] at moved
    split at moved
    · cases moved
    · rename_i opened
      cases moved
      rw [addLot_lotSum opened]
  · simp only [side] at sided
    simp only [side, Side.closing, if_true, Except.ok.injEq, Prod.mk.injEq] at moved
    have cleanLong : CleanMatch times book.lots fill.ticker qty false := by
      simpa [side, Side.closing] using clean
    rw [← moved.1]
    simp only [reduceCtorEq, decide_false, Side.sign]
    rw [matchLots_lotSum traded.positive.le (sided.2.trans available.1) cleanLong]
    simp only [Bool.false_eq_true, if_false]
    split_ifs <;> ring
  · obtain ⟨⟨orderId, session⟩, known⟩ := Option.ne_none_iff_exists'.mp origin
    simp only [side, Side.closing, Bool.false_eq_true, if_false, openLot, known] at moved
    split at moved
    · cases moved
    · rename_i opened
      cases moved
      rw [addLot_lotSum opened]
  · simp only [side] at sided
    simp only [side, Side.closing, if_true, Except.ok.injEq, Prod.mk.injEq] at moved
    have cleanShort : CleanMatch times book.lots fill.ticker qty true := by
      simpa [side, Side.closing] using clean
    rw [← moved.1]
    simp only [decide_true, Side.sign]
    rw [matchLots_lotSum traded.positive.le (sided.2.trans available.2) cleanShort]
    simp only [if_true]
    split_ifs <;> ring

/-- Moving lots adds at most a lot of the traded instrument. -/
theorem moveLots_keys {times : FillTimes} {fill : Fill}
    {fee : ℚ} {closes : List Close}
    (moved : moveLots settings times book fill fee qty = .ok (lots, trades, closes))
    {key : Ticker × OrderId} (member : key ∈ lots) : key.1 = fill.ticker ∨ key ∈ book.lots := by
  unfold moveLots at moved
  split at moved
  · cases moved
    exact .inr (matchLots_keys member)
  · split at moved
    · cases moved
    · rename_i opened
      cases moved
      unfold openLot at opened
      split at opened
      · cases opened
        exact .inr member
      · exact addLot_keys opened member

theorem filledBook_carried {times : FillTimes}
    {fill : Fill} {fee : ℚ} {closes : List Close}
    (carried : Carried book) (traded : Traded (book.position fill.ticker).qty fill qty)
    (origin : fill.origin ≠ none)
    (clean : fill.side.closing = true →
      CleanMatch times book.lots fill.ticker qty (fill.side = .cover))
    (moved : moveLots settings times book fill fee qty = .ok (lots, trades, closes)) :
    Carried (filledBook book fill fee qty lots trades) := by
  refine ⟨?_, ?_⟩
  · intro other
    change lotSum lots other = (((book.positions.insert fill.ticker _).lookup other).getD ⟨0, 0⟩).qty
    rw [moveLots_lotSum carried traded origin clean moved, position_insert, carried.carried]
    by_cases same : other = fill.ticker
    · simp [same]
    · simp [same, Ne.symm same]
  · intro key member
    change key.1 ∈ book.positions.insert fill.ticker _
    rw [AList.mem_insert]
    exact (moveLots_keys moved member).imp_right (carried.rowed key)

/-- A split moves an instrument's sum by the change of its old lots. -/
theorem splitLot_lotSum (lots : Lots) (ticker other : Ticker) (ex : Int) (ratio : ℚ) :
    lotSum (mapRows (splitLot ticker ex ratio) lots) other =
      lotSum lots other + if ticker = other then oldQty lots ticker ex * (ratio - 1) else 0 := by
  unfold lotSum oldQty
  rw [total_mapRows]
  by_cases same : ticker = other
  · subst same
    rw [if_pos rfl, ← total_mul, ← total_add]
    apply total_congr
    intro row _
    unfold splitLot
    split_ifs <;> simp_all
    ring
  · rw [if_neg same, add_zero]
    apply total_congr
    intro row _
    unfold splitLot
    split_ifs <;> simp_all

theorem mapRows_keys {change : Ticker × OrderId → Lot → Lot}
    {key : Ticker × OrderId} (member : key ∈ mapRows change lots) : key ∈ lots := by
  rw [AList.mem_keys, AList.keys] at member ⊢
  simpa [mapRows, List.keys, Function.comp_def] using member

/-- Without lots opened before the ex-date there is nothing to change. -/
theorem oldQty_of_unlisted {ticker : Ticker} (ex : Int)
    (unlisted : ∀ key ∈ lots, key.1 ≠ ticker) : oldQty lots ticker ex = 0 := by
  unfold oldQty total
  apply List.sum_eq_zero
  intro value listed
  obtain ⟨row, stored, rfl⟩ := List.mem_map.mp listed
  have other : row.1.1 ≠ ticker :=
    unlisted row.1 (AList.mem_keys.mpr (List.mem_map_of_mem stored))
  simp [other]

/-- A split keeps lots and positions in step. -/
theorem applySplit_carried (carried : Carried book) (ticker : Ticker) (ex : Int)
    (ratio : ℚ) : Carried (applySplit book ticker ex ratio) := by
  have unmoved (still : oldQty book.lots ticker ex = 0) :
      Carried { book with lots := mapRows (splitLot ticker ex ratio) book.lots } := by
    refine ⟨fun other => ?_, fun key member => carried.rowed key (mapRows_keys member)⟩
    simp only [splitLot_lotSum, still, zero_mul, ite_self, add_zero]
    exact carried.carried other
  unfold applySplit
  rcases stored : book.positions.lookup ticker with _ | row
  · apply unmoved
    apply oldQty_of_unlisted
    intro key member same
    have rowed := carried.rowed key member
    rw [same, ← AList.lookup_isSome, stored] at rowed
    cases rowed
  · by_cases still : oldQty book.lots ticker ex = 0
    · simpa only [still, ne_eq, not_true_eq_false, if_false] using unmoved still
    · simp only [ne_eq, still, not_false_eq_true, if_true]
      refine ⟨fun other => ?_, fun key member => ?_⟩
      · change lotSum _ other = (((book.positions.insert ticker _).lookup other).getD ⟨0, 0⟩).qty
        rw [splitLot_lotSum, position_insert, carried.carried]
        by_cases same : other = ticker
        · subst same
          simp [Book.position, stored]
        · simp [same, Ne.symm same]
      · exact AList.mem_insert _ |>.mpr (.inr (carried.rowed key (mapRows_keys member)))

/-- Converting matched lots adds their converted quantity to the acquirer. -/
theorem convertLots_lotSum {into : Ticker} {sign ratio : ℚ} {matched : List MatchedLot}
    {converted : Lots} (done : convertLots into sign ratio matched lots = .ok converted)
    (other : Ticker) :
    lotSum converted other =
      lotSum lots other + if into = other then sign * takenQty matched * ratio else 0 := by
  induction matched generalizing lots with
  | nil =>
    cases done
    simp [takenQty]
  | cons lot rest ih =>
    simp only [convertLots] at done
    split at done
    · cases done
    · rename_i grown added
      rw [ih done, addLot_lotSum added]
      simp only [takenQty, List.map_cons, List.sum_cons]
      split_ifs <;> ring

theorem convertLots_keys {into : Ticker} {sign ratio : ℚ} {matched : List MatchedLot}
    {converted : Lots} (done : convertLots into sign ratio matched lots = .ok converted)
    {key : Ticker × OrderId} (member : key ∈ converted) : key.1 = into ∨ key ∈ lots := by
  induction matched generalizing lots with
  | nil =>
    cases done
    exact .inr member
  | cons lot rest ih =>
    simp only [convertLots] at done
    split at done
    · cases done
    · rename_i grown added
      exact (ih done).elim .inl (addLot_keys added)

theorem acquired_qty (stored : Option Position) (newShares basis : ℚ) :
    (acquired stored newShares basis).qty = (stored.getD ⟨0, 0⟩).qty + newShares := by
  cases stored <;> simp [acquired]

/-- Taking the whole holding out of its row leaves nothing. -/
theorem reduceRow_position (book : Book) (ticker other : Ticker) (qty : ℚ)
    (stored : (book.positions.lookup ticker).isSome ∨ qty = 0) :
    (((reduceRow book.positions ticker qty).lookup other).getD ⟨0, 0⟩).qty =
      (book.position other).qty - if ticker = other then qty else 0 := by
  unfold reduceRow
  rcases row : book.positions.lookup ticker with _ | held
  · have nothing : qty = 0 := by simpa [row] using stored
    simp [nothing, Book.position]
  · simp only [position_insert]
    by_cases same : other = ticker
    · subst same
      simp [Book.position, row]
    · simp [same, Ne.symm same]

theorem reduceRow_mem {positions : Table Ticker Position} {ticker : Ticker}
    {other : Ticker} (member : other ∈ positions) : other ∈ reduceRow positions ticker qty := by
  unfold reduceRow
  split
  · exact AList.mem_insert _ |>.mpr (.inr member)
  · exact member

theorem holding_closable (carried : Carried book) (ticker : Ticker) :
    |(book.position ticker).qty| ≤
      closableQty book.lots ticker ((book.position ticker).qty < 0) := by
  have available := lotSum_le_closable book.lots ticker
  rw [carried.carried] at available
  by_cases short : (book.position ticker).qty < 0
  · simp only [short, decide_true, abs_of_neg short]
    exact available.2
  · simp only [short, decide_false, abs_of_nonneg (not_lt.mp short)]
    exact available.1

/-- Taking a whole holding out keeps lots and positions in step. -/
theorem paidOut_carried {times : FillTimes} {terms : SettlementTerms}
    (carried : Carried book)
    (clean : CleanMatch times book.lots terms.ticker |(book.position terms.ticker).qty|
      ((book.position terms.ticker).qty < 0)) :
    Carried (paidOut times book terms (book.position terms.ticker).qty) := by
  have rowOrNothing : (book.positions.lookup terms.ticker).isSome ∨
      (book.position terms.ticker).qty = 0 := by
    rcases row : book.positions.lookup terms.ticker with _ | held <;> simp [Book.position, row]
  refine ⟨fun other => ?_, fun key member => reduceRow_mem (carried.rowed key (matchLots_keys member))⟩
  change lotSum (matchLots _ _ _ _ _ true).2 other =
    (((reduceRow book.positions terms.ticker _).lookup other).getD ⟨0, 0⟩).qty
  rw [matchLots_lotSum (abs_nonneg _) (holding_closable carried _) clean,
    reduceRow_position book _ _ _ rowOrNothing, carried.carried]
  congr 2
  by_cases short : (book.position terms.ticker).qty < 0
  · simp [short, abs_of_neg short]
  · simp [short, abs_of_nonneg (not_lt.mp short)]

/-- A stock conversion keeps lots and positions in step, whatever the acquirer holds. -/
theorem converted_carried {times : FillTimes} {terms : SettlementTerms}
    {into : Ticker} {ratio : ℚ} (basis : ℚ) (carried : Carried book)
    (clean : CleanMatch times book.lots terms.ticker |(book.position terms.ticker).qty|
      ((book.position terms.ticker).qty < 0))
    (converted : convertLots into (if (book.position terms.ticker).qty < 0 then -1 else 1) ratio
      (settledLots times book terms.ticker (book.position terms.ticker).qty).1
      (paidOut times book terms (book.position terms.ticker).qty).lots = .ok lots) :
    Carried (convertedBook (paidOut times book terms (book.position terms.ticker).qty) into lots
      ((book.position terms.ticker).qty * ratio) basis) := by
  have paid := paidOut_carried carried clean
  refine ⟨fun other => ?_, fun key member => ?_⟩
  · change lotSum lots other =
      ((((paidOut times book terms _).positions.insert into _).lookup other).getD ⟨0, 0⟩).qty
    rw [convertLots_lotSum converted, position_insert, paid.carried, settledLots,
      matchLots_takenQty (abs_nonneg _) (holding_closable carried _) clean]
    by_cases same : other = into
    · subst same
      rw [if_pos rfl, if_pos rfl, acquired_qty]
      congr 1
      split_ifs with short
      · rw [abs_of_neg short]
        ring
      · rw [abs_of_nonneg (not_lt.mp short)]
        ring
    · simp [same, Ne.symm same]
  · exact AList.mem_insert _ |>.mpr ((convertLots_keys converted member).imp_right (paid.rowed key))

/-- The checks and clamps of a fill raise their own errors. -/
theorem fillQty_ne_lotsDiffer (settings : LedgerSettings) (book : Book) (fill : Fill)
    (fees : Option Fees) : fillQty settings book fill fees ≠ .error .lotsDiffer := by
  have checks : fillChecks settings (book.position fill.ticker) fill fees ≠ .error .lotsDiffer := by
    unfold fillChecks
    split_ifs <;> simp
  have clamps : tradedQty settings book.cash (feeTotal fees) (book.position fill.ticker).qty fill ≠
      .error .lotsDiffer := by
    unfold tradedQty
    cases fill.side <;> dsimp only <;> split_ifs <;> simp
  unfold fillQty
  rcases found : fillChecks settings (book.position fill.ticker) fill fees with raised | _ | _
  · rw [found] at checks
    simpa [found] using checks
  · simp [found]
  · simpa [found] using clamps

theorem addLot_ne_lotsDiffer (lots : Lots) (ticker : Ticker) (session : Int) (orderId : OrderId)
    (qty px : ℚ) : addLot lots ticker session orderId qty px ≠ .error .lotsDiffer := by
  intro raised
  unfold addLot at raised
  split at raised
  · cases raised
  · split at raised <;> cases raised

theorem moveLots_ne_lotsDiffer (settings : LedgerSettings) (times : FillTimes) (book : Book)
    (fill : Fill) (fee qty : ℚ) :
    moveLots settings times book fill fee qty ≠ .error .lotsDiffer := by
  intro raised
  unfold moveLots openLot at raised
  split at raised
  · cases raised
  · split at raised
    · rename_i found
      cases raised
      split at found
      · cases found
      · exact addLot_ne_lotsDiffer _ _ _ _ _ _ found
    · cases raised

theorem convertLots_ne_lotsDiffer (into : Ticker) (sign ratio : ℚ) (matched : List MatchedLot)
    (lots : Lots) : convertLots into sign ratio matched lots ≠ .error .lotsDiffer := by
  induction matched generalizing lots with
  | nil => simp [convertLots]
  | cons lot rest ih =>
    intro raised
    simp only [convertLots] at raised
    split at raised
    · rename_i found
      cases raised
      exact addLot_ne_lotsDiffer _ _ _ _ _ _ found
    · exact ih _ raised

/-- A fill of an account keeps lots and positions in step and passes the comparison. -/
theorem applyFill_carried {times : FillTimes}
    {fill : Fill} {fees : Option Fees} (account : settings.engine = .account)
    (carried : Carried book) (clean : CleanStep settings book (.fill times fill fees)) :
    (∀ applied, applyFill settings times book fill fees = .ok applied → Carried applied.book) ∧
      applyFill settings times book fill fees ≠ .error .lotsDiffer := by
  simp only [CleanStep] at clean
  unfold applyFill
  rcases quantity : fillQty settings book fill fees with raised | _ | qty
  · refine ⟨by simp, ?_⟩
    intro found
    cases found
    exact fillQty_ne_lotsDiffer settings book fill fees quantity
  · refine ⟨?_, by simp⟩
    intro applied same
    cases same
    exact carried
  · have clean := clean qty (by simp [quantity, Except.toOption])
    have origin : fill.origin ≠ none := by
      intro missing
      simp only [fillQty, fillChecks, missing, account, and_self, if_true] at quantity
      by_cases valid : 0 < fill.qty ∧ 0 < fill.px ∧ 0 < fill.multiplier <;> simp [valid] at quantity
    rcases moved : moveLots settings times book fill (feeTotal fees) qty with raised | ⟨lots, trades, closes⟩
    · simp only [moved]
      refine ⟨by simp, ?_⟩
      intro found
      cases found
      exact moveLots_ne_lotsDiffer settings times book fill (feeTotal fees) qty moved
    · have written := filledBook_carried carried (fillQty_traded quantity) origin clean moved
      simp only [moved, written.passes settings]
      refine ⟨?_, by simp⟩
      intro applied same
      cases same
      exact written

/-- A settlement of an account keeps lots and positions in step and passes the
comparison. -/
theorem applySettlementEvent_carried {times : FillTimes}
    {terms : SettlementTerms} (account : settings.engine = .account) (carried : Carried book)
    (clean : CleanStep settings book (.settlement times terms)) :
    (∀ settled, applySettlementEvent settings times book terms = .ok settled → Carried settled.1) ∧
      applySettlementEvent settings times book terms ≠ .error .lotsDiffer := by
  have whole : settledQty settings book terms = (book.position terms.ticker).qty := by
    simp [settledQty, account]
  simp only [CleanStep, whole] at clean
  unfold applySettlementEvent
  simp only [whole]
  by_cases checked : checkApplication book terms = false
  · simp [checked]
  · have clean := clean (by simpa using checked)
    have paid := paidOut_carried carried clean
    rw [if_neg checked]
    cases kind : terms.kind with
    | cash =>
      simp only [paid.passes settings]
      refine ⟨?_, by simp⟩
      rintro _ ⟨⟩
      exact paid
    | worthless =>
      simp only [paid.passes settings]
      refine ⟨?_, by simp⟩
      rintro _ ⟨⟩
      exact paid
    | stock =>
      rcases acquirer : terms.intoTicker with _ | into
      · simp
      rcases exchange : terms.ratio with _ | ratio
      · simp
      dsimp only
      rcases converted : convertLots into (if (book.position terms.ticker).qty < 0 then -1 else 1)
          ratio (settledLots times book terms.ticker (book.position terms.ticker).qty).1
          (paidOut times book terms (book.position terms.ticker).qty).lots with raised | lots
      · refine ⟨by simp, ?_⟩
        rintro ⟨⟩
        exact convertLots_ne_lotsDiffer _ _ _ _ _ converted
      · have written := converted_carried ((book.position terms.ticker).avgCost / ratio)
          carried clean converted
        simp only [written.passes settings]
        refine ⟨?_, by simp⟩
        rintro _ ⟨⟩
        exact written

/-- Every call of an account's ledger keeps lots and positions in step and never
finds that they differ. -/
theorem perform_carried {step : LedgerStep}
    (account : settings.engine = .account) (carried : Carried book)
    (clean : CleanStep settings book step) :
    Carried (after settings book step) ∧ perform settings book step ≠ .error .lotsDiffer := by
  cases step with
  | fill times fill fees =>
    obtain ⟨kept, agreed⟩ := applyFill_carried account carried clean
    simp only [after, perform]
    rcases result : applyFill settings times book fill fees with raised | applied
    · rw [result] at agreed
      exact ⟨carried, by simpa [Except.map] using agreed⟩
    · exact ⟨kept applied result, by simp [Except.map]⟩
  | split ticker ex ratio =>
    exact ⟨applySplit_carried carried ticker ex ratio, by simp [perform]⟩
  | settlement times terms =>
    obtain ⟨kept, agreed⟩ := applySettlementEvent_carried account carried clean
    simp only [after, perform]
    rcases result : applySettlementEvent settings times book terms with raised | settled
    · rw [result] at agreed
      exact ⟨carried, by simpa [Except.map] using agreed⟩
    · exact ⟨kept settled result, by simp [Except.map]⟩

/-- A short acquirer receives a long holding, so that one instrument has lots of
both signs; a cover, a reverse split and a settlement follow. -/
def mixedSigns : List LedgerStep :=
  let times : FillTimes := fun id => some id
  [.fill times ⟨some (1, 10), "OLD", .buy, 4, 25, 1⟩ (some (.ofTotal 1)),
    .fill times ⟨some (2, 10), "NEW", .short, 10, 30, 1⟩ none,
    .settlement times ⟨"OLD", .stock, 4, 0, some "NEW", some (3 / 2)⟩,
    .fill times ⟨some (3, 11), "NEW", .cover, 9, 31, 1⟩ none,
    .fill times ⟨some (4, 11), "NEW", .buy, 2, 31, 1⟩ none,
    .split "NEW" 11 (1 / 5),
    .settlement times ⟨"NEW", .worthless, 0, 0, none, none⟩]

end TradingEngine.Ledger
