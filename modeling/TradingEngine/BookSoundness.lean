import TradingEngine.ClosedTrades

/-!
# Sound books

Every open lot comes from a known order, and neither lots nor positions ever have
a negative basis. The mutations of the ledger keep this. With lots that carry the
positions it is what a fill needs of the book that it meets: it then raises only
when it opens against a position of the other sign.
-/

namespace TradingEngine.Ledger

open KeyedTables OrderTypes Runs

/-- Lots of known orders with a basis that is not negative. -/
structure RootedLots (known : OrderId → Prop) (lots : Lots) : Prop where
  known : ∀ key lot, lots.lookup key = some lot → known key.2
  priced : ∀ key lot, lots.lookup key = some lot → 0 ≤ lot.avgPx

namespace RootedLots

variable {known : OrderId → Prop} {lots : Lots}

theorem insert (rooted : RootedLots known lots) {key : Ticker × OrderId} {row : Lot}
    (listed : known key.2) (nonneg : 0 ≤ row.avgPx) : RootedLots known (lots.insert key row) := by
  constructor
  · intro other lot found
    by_cases same : other = key
    · exact same ▸ listed
    · rw [AList.lookup_insert_ne same] at found
      exact rooted.known other lot found
  · intro other lot found
    by_cases same : other = key
    · subst same
      rw [AList.lookup_insert, Option.some.injEq] at found
      exact found ▸ nonneg
    · rw [AList.lookup_insert_ne same] at found
      exact rooted.priced other lot found

theorem add {grown : Lots} {ticker : Ticker} {session : Int} {orderId : OrderId} {qty px : ℚ}
    (rooted : RootedLots known lots) (listed : known orderId) (nonneg : 0 ≤ px)
    (added : addLot lots ticker session orderId qty px = .ok grown) : RootedLots known grown := by
  unfold addLot at added
  split at added
  · cases added
    exact rooted.insert listed nonneg
  · rename_i old stored
    split at added
    · cases added
    · cases added
      refine rooted.insert listed ?_
      dsimp only
      split
      · exact le_refl 0
      · have before := rooted.priced _ old stored
        positivity

theorem close (rooted : RootedLots known lots) {times : FillTimes} {ticker : Ticker} {qty : ℚ}
    {closingShort : Bool} :
    RootedLots known (matchLots times lots ticker qty closingShort true).2 := by
  constructor
  · intro key lot found
    obtain ⟨before, present, _⟩ := matchLots_price found
    exact rooted.known key before present
  · intro key lot found
    obtain ⟨before, present, same⟩ := matchLots_price found
    exact same ▸ rooted.priced key before present

theorem split (rooted : RootedLots known lots) (ticker : Ticker) (ex : Int) {ratio : ℚ}
    (positive : 0 < ratio) : RootedLots known (mapRows (splitLot ticker ex ratio) lots) := by
  constructor
  · intro key lot found
    rw [lookup_mapRows, Option.map_eq_some_iff] at found
    obtain ⟨old, present, _⟩ := found
    exact rooted.known key old present
  · intro key lot found
    rw [lookup_mapRows, Option.map_eq_some_iff] at found
    obtain ⟨old, present, rfl⟩ := found
    have before := rooted.priced key old present
    unfold splitLot
    split
    · exact div_nonneg before positive.le
    · exact before

theorem convert {into : Ticker} {sign ratio : ℚ} {matched : List MatchedLot} {converted : Lots}
    (rooted : RootedLots known lots) (positive : 0 < ratio)
    (taken : ∀ lot ∈ matched, known lot.openOrderId ∧ 0 ≤ lot.avgPx)
    (done : convertLots into sign ratio matched lots = .ok converted) :
    RootedLots known converted := by
  induction matched generalizing lots with
  | nil =>
    cases done
    exact rooted
  | cons lot rest ih =>
    simp only [convertLots] at done
    split at done
    · cases done
    · rename_i grown added
      obtain ⟨listed, nonneg⟩ := taken lot List.mem_cons_self
      exact ih (rooted.add listed (div_nonneg nonneg positive.le) added)
        (fun other member => taken other (List.mem_cons_of_mem _ member)) done

theorem basis_nonneg (rooted : RootedLots known lots) (ticker : Ticker) :
    0 ≤ lotBasis lots ticker := by
  have weighted : 0 ≤ total (fun key lot => if key.1 = ticker then |lot.qty| * lot.avgPx else 0)
      lots := by
    refine List.sum_nonneg ?_
    intro value listed
    obtain ⟨row, member, rfl⟩ := List.mem_map.mp listed
    have before := rooted.priced row.1 row.2 (lookup_of_mem member)
    dsimp only
    split
    · positivity
    · exact le_refl 0
  have weight : 0 ≤ total (fun key lot => if key.1 = ticker then |lot.qty| else 0) lots := by
    refine List.sum_nonneg ?_
    intro value listed
    obtain ⟨row, member, rfl⟩ := List.mem_map.mp listed
    dsimp only
    split
    · positivity
    · exact le_refl 0
  exact div_nonneg weighted weight

end RootedLots

/-- A book whose lots are rooted and whose positions have no negative basis. -/
structure Rooted (known : OrderId → Prop) (book : Book) : Prop where
  lots : RootedLots known book.lots
  priced : ∀ ticker, 0 ≤ (book.position ticker).avgCost

theorem opening_rooted (known : OrderId → Prop) (cash : ℚ) : Rooted known (Book.opening cash) := by
  constructor
  · constructor
    · intro key lot found
      simp [Book.opening] at found
    · intro key lot found
      simp [Book.opening] at found
  · intro ticker
    simp [Book.position, Book.opening]

variable {book : Book}

theorem insert_priced {ticker : Ticker} {row : Position}
    (priced : ∀ other, 0 ≤ (book.position other).avgCost) (nonneg : 0 ≤ row.avgCost)
    (other : Ticker) :
    0 ≤ (((book.positions.insert ticker row).lookup other).getD ⟨0, 0⟩).avgCost := by
  by_cases same : other = ticker
  · subst same
    rw [AList.lookup_insert]
    exact nonneg
  · rw [AList.lookup_insert_ne same]
    exact priced other

variable {settings : LedgerSettings}

/-- A fill keeps a book rooted when it opens under a known order. -/
theorem applyFill_rooted {known : OrderId → Prop} {times : FillTimes} {fill : Fill}
    {fees : Option Fees} {applied : Applied}
    (rooted : Rooted known book) (listed : ∀ origin ∈ fill.origin, known origin.1)
    (filled : applyFill settings times book fill fees = .ok applied) :
    Rooted known applied.book := by
  rcases applyFill_cases filled with ⟨_, rfl⟩ | ⟨qty, lots, trades, closes, quantity, moved, rfl⟩
  · exact rooted
  · have traded := fillQty_traded quantity
    constructor
    · unfold moveLots at moved
      split at moved
      · cases moved
        exact rooted.lots.close
      · split at moved
        · cases moved
        · rename_i opened
          cases moved
          unfold openLot at opened
          split at opened
          · cases opened
            exact rooted.lots
          · rename_i origin
            exact rooted.lots.add (listed _ origin) traded.priced.le opened
    · refine insert_priced rooted.priced ?_
      unfold newCost
      split
      · exact rooted.priced fill.ticker
      · split
        · exact le_refl 0
        · have basis := rooted.priced fill.ticker
          have quantity := traded.positive
          have price := traded.priced
          positivity

theorem applySplit_rooted {known : OrderId → Prop} (rooted : Rooted known book)
    (ticker : Ticker) (ex : Int) {ratio : ℚ} (positive : 0 < ratio) :
    Rooted known (applySplit book ticker ex ratio) := by
  have lots := rooted.lots.split ticker ex positive
  refine ⟨by rw [applySplit_lots]; exact lots, ?_⟩
  unfold applySplit
  split
  · dsimp only
    split
    · exact insert_priced rooted.priced (lots.basis_nonneg ticker)
    · exact rooted.priced
  · exact rooted.priced

theorem reduceRow_priced {ticker : Ticker} {qty : ℚ}
    (priced : ∀ other, 0 ≤ (book.position other).avgCost) (other : Ticker) :
    0 ≤ (((reduceRow book.positions ticker qty).lookup other).getD ⟨0, 0⟩).avgCost := by
  unfold reduceRow
  split
  · rename_i row stored
    refine insert_priced priced ?_ other
    have before := priced ticker
    simpa [Book.position, stored] using before
  · exact priced other

theorem acquired_priced {stored : Option Position} {newShares basis : ℚ} (nonneg : 0 ≤ basis)
    (before : 0 ≤ (stored.getD ⟨0, 0⟩).avgCost) :
    0 ≤ (acquired stored newShares basis).avgCost := by
  cases stored with
  | none => exact nonneg
  | some row =>
    have held : 0 ≤ row.avgCost := before
    unfold acquired
    dsimp only
    split
    · split
      · exact le_refl 0
      · positivity
    · split
      · exact held
      · split
        · exact le_refl 0
        · exact nonneg

/-- A settlement keeps a book rooted. -/
theorem applySettlementEvent_rooted {known : OrderId → Prop}
    {times : FillTimes} {terms : SettlementTerms} {settled : Book × List Close}
    (rooted : Rooted known book)
    (done : applySettlementEvent settings times book terms = .ok settled) :
    Rooted known settled.1 := by
  obtain ⟨checked, ⟨_, same, _⟩ | ⟨kind, into, ratio, lots, _, exchange, converted, same, _⟩⟩ :=
    applySettlementEvent_cases done
  · rw [same]
    exact ⟨rooted.lots.close, reduceRow_priced rooted.priced⟩
  · have positive : 0 < ratio := by
      simp only [checkApplication, numericTerms, kind, exchange, Option.map_some, Option.getD_some,
        Bool.and_eq_true, decide_eq_true_eq] at checked
      exact checked.1.2
    rw [same]
    constructor
    · refine RootedLots.convert rooted.lots.close positive ?_ converted
      intro lot listed
      obtain ⟨_, stored, present, price⟩ := matchLots_taken listed
      exact ⟨rooted.lots.known _ stored present, price ▸ rooted.lots.priced _ stored present⟩
    · have paid : ∀ other, 0 ≤ ((paidOut times book terms
          (settledQty settings book terms)).position other).avgCost :=
        reduceRow_priced rooted.priced
      refine insert_priced paid (acquired_priced ?_ (paid into))
      exact div_nonneg (rooted.priced terms.ticker) positive.le

/-- A replayed event keeps a book rooted when its fills are known. -/
theorem replayEvent_rooted {known : OrderId → Prop}
    {times : FillTimes} {next : Book} {event : Event} (rooted : Rooted known book)
    (listed : ∀ orderId row, event = .fill orderId row → known orderId)
    (replayed : replayEvent settings times book event = .ok next) : Rooted known next := by
  obtain ⟨outcome, applied, rfl⟩ := map_ok.mp replayed
  cases event with
  | fill orderId row =>
    simp only [applyEvent] at applied
    split at applied
    · cases applied
    · rename_i filled
      split at applied
      · cases applied
        refine applyFill_rooted rooted ?_ filled
        intro origin same
        cases same
        exact listed orderId row rfl
      · cases applied
  | split ticker ex ratio =>
    cases applied
    exact applySplit_rooted rooted ticker ex ratio.positive
  | settlement ticker effective row => exact applySettlementEvent_rooted rooted applied
  | dividend ticker ex row =>
    simp only [applyEvent] at applied
    split at applied
    · cases applied
    · cases applied
      exact ⟨rooted.lots, rooted.priced⟩
  | cash eventDate seq row =>
    cases applied
    exact ⟨rooted.lots, rooted.priced⟩

/-- A replayed event of an account keeps lots and positions in step. -/
theorem replayEvent_carried {times : FillTimes} {next : Book}
    {event : Event} (account : settings.engine = .account) (carried : Carried book)
    (clean : CleanEvent settings times book event)
    (replayed : replayEvent settings times book event = .ok next) : Carried next := by
  obtain ⟨outcome, applied, rfl⟩ := map_ok.mp replayed
  cases event with
  | fill orderId row =>
    simp only [applyEvent] at applied
    split at applied
    · cases applied
    · rename_i filled
      split at applied
      · cases applied
        exact (applyFill_carried account carried clean.1).1 _ filled
      · cases applied
  | split ticker ex ratio =>
    cases applied
    exact applySplit_carried carried ticker ex ratio.value
  | settlement ticker effective row =>
    exact (applySettlementEvent_carried account carried clean).1 _ applied
  | dividend ticker ex row =>
    simp only [applyEvent] at applied
    split at applied
    · cases applied
    · cases applied
      exact ⟨carried.carried, carried.rowed⟩
  | cash eventDate seq row =>
    cases applied
    exact ⟨carried.carried, carried.rowed⟩

/-- A quantity that a side can trade against a position. -/
def Fits (side : Side) (held qty : ℚ) : Prop :=
  match side with
  | .buy => 0 ≤ held
  | .sell => qty ≤ held
  | .short => held ≤ 0
  | .cover => qty ≤ -held

/-- A fitting fill of a margin account trades the whole quantity. -/
theorem fillQty_fits {fill : Fill} {fees : Option Fees}
    (margin : settings.accountType = .margin) (originated : fill.origin ≠ none)
    (positive : 0 < fill.qty ∧ 0 < fill.px ∧ 0 < fill.multiplier)
    (charged : ∀ known ∈ fees, ∀ component ∈ known.components, 0 ≤ component)
    (priced : 0 ≤ (book.position fill.ticker).avgCost)
    (fits : Fits fill.side (book.position fill.ticker).qty fill.qty) :
    fillQty settings book fill fees = .ok (some fill.qty) := by
  have checks : fillChecks settings (book.position fill.ticker) fill fees = .ok true := by
    have nonneg : ¬ ∃ known ∈ fees, ∃ component ∈ known.components, component < 0 := by
      rintro ⟨known, listed, component, inside, negative⟩
      exact absurd (charged known listed component inside) (not_le.mpr negative)
    unfold fillChecks
    rw [if_neg (not_not.mpr positive), if_neg (fun missing => originated missing.2),
      if_neg (by simp [margin]), if_neg nonneg, if_neg (not_lt.mpr priced)]
  unfold fillQty
  simp only [checks, tradedQty]
  cases side : fill.side with
  | buy =>
    simp only [Fits, side] at fits
    simp [not_lt.mpr fits, margin]
  | sell =>
    simp only [Fits, side] at fits
    have held : ¬ (book.position fill.ticker).qty ≤ 0 := by linarith [positive.1]
    simp [held, min_eq_left fits]
  | short =>
    simp only [Fits, side] at fits
    simp [not_lt.mpr fits]
  | cover =>
    simp only [Fits, side] at fits
    have held : (book.position fill.ticker).qty < 0 := by linarith [positive.1]
    simp [not_le.mpr held, abs_of_neg held, min_eq_left fits]

/-- A fitting fill under a new order meets a sound book and goes through unchanged. -/
theorem applyFill_returns {known : OrderId → Prop} {times : FillTimes} {fill : Fill}
    {fees : Option Fees} {origin : OrderId × Int}
    (margin : settings.accountType = .margin) (carried : Carried book)
    (rooted : Rooted known book) (originated : fill.origin = some origin)
    (fresh : ¬ known origin.1) (positive : 0 < fill.qty ∧ 0 < fill.px ∧ 0 < fill.multiplier)
    (charged : ∀ known ∈ fees, ∀ component ∈ known.components, 0 ≤ component)
    (fits : Fits fill.side (book.position fill.ticker).qty fill.qty)
    (clean : fill.side.closing = true →
      CleanMatch times book.lots fill.ticker fill.qty (fill.side = .cover)) :
    ∃ applied, applyFill settings times book fill fees = .ok applied ∧ applied.qty = fill.qty := by
  have some : fill.origin ≠ none := by simp [originated]
  have quantity := fillQty_fits margin some positive charged
    (rooted.priced fill.ticker) fits
  have moves : ∃ result, moveLots settings times book fill (feeTotal fees) fill.qty = .ok result := by
    unfold moveLots
    split
    · exact ⟨_, rfl⟩
    · -- The lot of a new order cannot be there yet.
      have absent : book.lots.lookup (fill.ticker, origin.1) = none := by
        by_contra present
        obtain ⟨lot, found⟩ := Option.ne_none_iff_exists'.mp present
        exact fresh (rooted.lots.known _ lot found)
      have opened : openLot book.lots fill fill.qty = .ok (book.lots.insert (fill.ticker, origin.1)
          ⟨origin.2, fill.side.sign * fill.qty, fill.px⟩) := by
        simp [openLot, originated, addLot, absent]
      rw [opened]
      exact ⟨_, rfl⟩
  obtain ⟨⟨lots, trades, closes⟩, moved⟩ := moves
  have written := filledBook_carried carried (fillQty_traded quantity) some clean moved
  refine ⟨⟨filledBook book fill (feeTotal fees) fill.qty lots trades, fill.qty, closes⟩, ?_, rfl⟩
  simp only [applyFill, quantity, moved, written.passes settings]

end TradingEngine.Ledger
