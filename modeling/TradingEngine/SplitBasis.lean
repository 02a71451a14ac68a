import TradingEngine.LotCarry

/-!
# The cost of a position through a split

A fill keeps an average cost on the position, and a close leaves it as it is; the lots that a
close takes are the first ones in. After a partial close of lots with different prices the
position's cost and that of the lots left are different amounts. A split writes the average
of the lots to the position, so that it keeps the cost exactly when the two agree.
-/

namespace TradingEngine.Ledger

open KeyedTables OrderTypes Runs

/-- What a position cost: its absolute quantity at its average cost. -/
def positionCost (book : Book) (ticker : Ticker) : ℚ :=
  |(book.position ticker).qty| * (book.position ticker).avgCost

/-- What the open lots cost. -/
def lotCost (lots : Lots) (ticker : Ticker) : ℚ :=
  total (fun key lot => if key.1 = ticker then |lot.qty| * lot.avgPx else 0) lots

/-- The units of the open lots, both signs counted. -/
def lotUnits (lots : Lots) (ticker : Ticker) : ℚ :=
  total (fun key lot => if key.1 = ticker then |lot.qty| else 0) lots

/-- The units of the lots when those opened before the ex-date are counted at the ratio. -/
def unitsAtRatio (lots : Lots) (ticker : Ticker) (ex : Int) (ratio : ℚ) : ℚ :=
  total (fun key lot => if key.1 = ticker then
    |lot.qty| * (if lot.openedSession < ex then ratio else 1) else 0) lots

/-- Nothing was opened before the ex-date, or the lots' cost for each unit at the ratio, on
the position at the ratio, is what the position cost. -/
def CostsAgree (book : Book) (ticker : Ticker) (ex : Int) (ratio : ℚ) : Prop :=
  oldQty book.lots ticker ex = 0 ∨ book.positions.lookup ticker = none ∨
    |(book.position ticker).qty + oldQty book.lots ticker ex * (ratio - 1)| *
      (lotCost book.lots ticker / unitsAtRatio book.lots ticker ex ratio) =
        positionCost book ticker

/-- A fill, or a split with a positive ratio. -/
def LedgerStep.Trades : LedgerStep → Prop
  | .fill _ _ _ => True
  | .split _ _ ratio => 0 < ratio
  | .settlement _ _ => False

instance : DecidablePred LedgerStep.Trades
  | .fill _ _ _ => inferInstanceAs (Decidable True)
  | .split _ _ ratio => inferInstanceAs (Decidable (0 < ratio))
  | .settlement _ _ => inferInstanceAs (Decidable False)

/-- A call of the runs that a position's cost is looked at in. -/
def TradesClean (settings : LedgerSettings) (book : Book) (step : LedgerStep) : Prop :=
  step.Trades ∧ CleanStep settings book step

instance (settings : LedgerSettings) (book : Book) (step : LedgerStep) :
    Decidable (TradesClean settings book step) :=
  inferInstanceAs (Decidable (_ ∧ _))

section Split

variable (lots : Lots) (ticker : Ticker) (ex : Int) {ratio : ℚ}

theorem oldQty_split :
    oldQty (mapRows (splitLot ticker ex ratio) lots) ticker ex = oldQty lots ticker ex * ratio := by
  unfold oldQty
  rw [total_mapRows, ← total_mul]
  refine total_congr fun row _ => ?_
  unfold splitLot
  by_cases old : row.1.1 = ticker ∧ row.2.openedSession < ex
  · simp [old]
  · simp [old]

/-- A change of units keeps what the lots cost. -/
theorem lotCost_split (positive : 0 < ratio) :
    lotCost (mapRows (splitLot ticker ex ratio) lots) ticker = lotCost lots ticker := by
  unfold lotCost
  rw [total_mapRows]
  refine total_congr fun row _ => ?_
  unfold splitLot
  by_cases old : row.1.1 = ticker ∧ row.2.openedSession < ex
  · rw [if_pos old]
    dsimp only
    rw [abs_mul, abs_of_pos positive]
    field_simp
  · rw [if_neg old]

theorem lotUnits_split (positive : 0 < ratio) :
    lotUnits (mapRows (splitLot ticker ex ratio) lots) ticker =
      unitsAtRatio lots ticker ex ratio := by
  unfold lotUnits unitsAtRatio
  rw [total_mapRows]
  refine total_congr fun row _ => ?_
  unfold splitLot
  by_cases named : row.1.1 = ticker
  · by_cases old : row.2.openedSession < ex
    · simp [named, old, abs_mul, abs_of_pos positive]
    · simp [named, old]
  · simp [named]

theorem lotBasis_split (positive : 0 < ratio) :
    lotBasis (mapRows (splitLot ticker ex ratio) lots) ticker =
      lotCost lots ticker / unitsAtRatio lots ticker ex ratio := by
  rw [← lotCost_split lots ticker ex positive, ← lotUnits_split lots ticker ex positive]
  rfl

end Split

theorem applySplit_cost_iff (book : Book) (ticker : Ticker) (ex : Int) {ratio : ℚ}
    (positive : 0 < ratio) :
    positionCost (applySplit book ticker ex ratio) ticker = positionCost book ticker ↔
      CostsAgree book ticker ex ratio := by
  unfold applySplit CostsAgree
  cases stored : book.positions.lookup ticker with
  | none => exact iff_of_true rfl (.inr (.inl rfl))
  | some row =>
    by_cases still : oldQty book.lots ticker ex = 0
    · dsimp only
      rw [if_neg (not_not.mpr still)]
      exact iff_of_true rfl (.inl still)
    · have held : book.position ticker = row := by simp [Book.position, stored]
      dsimp only
      rw [if_pos still, or_iff_right still, or_iff_right (Option.some_ne_none row),
        lotBasis_split book.lots ticker ex positive, held]
      unfold positionCost Book.position
      simp only [AList.lookup_insert, Option.getD_some]

/-- Every lot of an instrument has a sign. -/
def Signed (sign : ℚ) (lots : Lots) (ticker : Ticker) : Prop :=
  ∀ key lot, lots.lookup key = some lot → key.1 = ticker → 0 < sign * lot.qty

/-- All lots of an instrument are long or all are short. -/
def OneSided (lots : Lots) (ticker : Ticker) : Prop :=
  Signed 1 lots ticker ∨ Signed (-1) lots ticker

theorem Signed.split {sign : ℚ} {lots : Lots} {other : Ticker} (signed : Signed sign lots other)
    (ticker : Ticker) (ex : Int) {ratio : ℚ} (positive : 0 < ratio) :
    Signed sign (mapRows (splitLot ticker ex ratio) lots) other := by
  intro key lot found named
  rw [lookup_mapRows] at found
  obtain ⟨before, stored, rfl⟩ := Option.map_eq_some_iff.mp found
  have sided := signed key before stored named
  unfold splitLot
  split
  · calc 0 < sign * before.qty * ratio := mul_pos sided positive
      _ = sign * (before.qty * ratio) := mul_assoc _ _ _
  · exact sided

/-- A lot of a sign makes the sum of such lots have it. -/
theorem Signed.lotSum_pos {sign : ℚ} {lots : Lots} {ticker : Ticker}
    (signed : Signed sign lots ticker) {key : Ticker × OrderId} {lot : Lot}
    (found : lots.lookup key = some lot) (named : key.1 = ticker) :
    0 < sign * lotSum lots ticker := by
  have rest : 0 ≤ sign * lotSum (lots.erase key) ticker := by
    unfold lotSum
    rw [mul_comm, ← total_mul]
    refine List.sum_nonneg fun value listed => ?_
    obtain ⟨row, stored, rfl⟩ := List.mem_map.mp listed
    dsimp only
    split
    · rename_i own
      have there : lots.lookup row.1 = some row.2 := by
        have kept := lookup_of_mem stored
        by_cases same : row.1 = key
        · rw [same, AList.lookup_erase] at kept
          cases kept
        · rwa [AList.lookup_erase_ne same] at kept
      rw [mul_comm]
      exact (signed row.1 row.2 there own).le
    · rw [zero_mul]
  have own := signed key lot found named
  unfold lotSum at rest ⊢
  rw [total_erase _ found, if_pos named, mul_add]
  exact add_pos_of_pos_of_nonneg own rest

theorem OneSided.signed {lots : Lots} {ticker : Ticker} (sided : OneSided lots ticker) {sign : ℚ}
    (unit : sign = 1 ∨ sign = -1) (nonneg : 0 ≤ sign * lotSum lots ticker) :
    Signed sign lots ticker := by
  have excluded : ∀ other : ℚ, other = -sign → Signed other lots ticker →
      Signed sign lots ticker := by
    rintro other rfl signed key lot found named
    have positive := signed.lotSum_pos found named
    rw [neg_mul, Left.neg_pos_iff] at positive
    exact absurd nonneg (not_le.mpr positive)
  rcases sided with long | short
  · rcases unit with rfl | rfl
    · exact long
    · exact excluded 1 (by norm_num) long
  · rcases unit with rfl | rfl
    · exact excluded (-1) rfl short
    · exact short

/-- The units of lots of one sign are their sum without it. -/
theorem OneSided.lotUnits {lots : Lots} {ticker : Ticker} (sided : OneSided lots ticker) :
    lotUnits lots ticker = |lotSum lots ticker| := by
  have units : ∀ sign : ℚ, sign = 1 ∨ sign = -1 → Signed sign lots ticker →
      Ledger.lotUnits lots ticker = sign * lotSum lots ticker := by
    intro sign unit signed
    unfold Ledger.lotUnits lotSum
    rw [mul_comm, ← total_mul]
    refine total_congr fun row listed => ?_
    split
    · rename_i named
      have own := signed row.1 row.2 (lookup_of_mem listed) named
      rcases unit with rfl | rfl
      · rw [one_mul] at own
        rw [abs_of_pos own, mul_one]
      · rw [neg_one_mul, Left.neg_pos_iff] at own
        rw [abs_of_neg own, mul_neg_one]
    · rw [zero_mul]
  have nonneg : 0 ≤ Ledger.lotUnits lots ticker := by
    unfold Ledger.lotUnits
    refine List.sum_nonneg fun value listed => ?_
    obtain ⟨row, -, rfl⟩ := List.mem_map.mp listed
    dsimp only
    split
    · exact abs_nonneg _
    · exact le_refl 0
  rcases sided with long | short
  · have sum := units 1 (.inl rfl) long
    rw [one_mul] at sum
    rw [sum, abs_of_nonneg (sum ▸ nonneg)]
  · have sum := units (-1) (.inr rfl) short
    rw [neg_one_mul] at sum
    rw [sum, abs_of_nonpos (neg_nonneg.mp (sum ▸ nonneg))]

variable {closingShort : Bool} {orderId : OrderId}

/-- Taking a lot leaves no lot of another sign. -/
theorem takeLot_signed {sign : ℚ} {ticker other : Ticker} {lot : Lot} {consumed : ℚ} {lots : Lots}
    (stored : lots.lookup (ticker, orderId) = some lot) (closes : Closes closingShort lot)
    (signed : Signed sign lots other) :
    Signed sign (takeLot ticker closingShort orderId lot consumed lots) other := by
  intro key row found named
  by_cases same : key = (ticker, orderId)
  · subst same
    have before := signed _ lot stored named
    unfold takeLot at found
    split at found
    · simp at found
    · rename_i large
      rw [AList.lookup_insert] at found
      cases found
      have left : 0 < |lot.qty| - consumed := by
        have : (0 : ℚ) < dust := by norm_num [dust]
        linarith
      unfold Closes at closes
      cases closingShort with
      | true =>
        have negative : sign < 0 := neg_of_mul_pos_left before (by simpa using closes.le)
        exact mul_pos_of_neg_of_neg negative (neg_neg_of_pos left)
      | false =>
        have positive : 0 < sign := pos_of_mul_pos_left before (by simpa using closes.le)
        exact mul_pos positive left
  · rw [takeLot_lookup_ne _ _ _ _ _ _ _ same] at found
    exact signed key row found named

theorem matchLoop_signed {sign : ℚ} {ticker other : Ticker}
    {rows : List (OrderId × Lot)} {remaining : ℚ} {lots : Lots}
    (queue : Queue ticker closingShort rows lots) (signed : Signed sign lots other) :
    Signed sign (matchLoop ticker closingShort true rows remaining lots).2 other := by
  induction rows generalizing remaining lots with
  | nil => exact signed
  | cons head rest ih =>
    obtain ⟨orderId, lot⟩ := head
    have taken : Signed sign
        (takeLot ticker closingShort orderId lot (min remaining |lot.qty|) lots) other :=
      takeLot_signed (queue.stored _ List.mem_cons_self) (queue.signed _ List.mem_cons_self) signed
    rw [matchLoop_cons]
    dsimp only
    split
    · exact taken
    · exact ih (queue.take _) taken

theorem matchLots_signed {sign : ℚ} {times : FillTimes} {lots : Lots} {ticker other : Ticker}
    {qty : ℚ} (signed : Signed sign lots other) :
    Signed sign (matchLots times lots ticker qty closingShort true).2 other := by
  unfold matchLots
  split
  · exact signed
  · exact matchLoop_signed (fifo_queue ..) signed

/-- An opening adds a lot of its own sign. -/
theorem addLot_signed {sign : ℚ} {lots grown : Lots} {ticker : Ticker} {session : Int} {qty px : ℚ}
    (signed : Signed sign lots ticker) (own : 0 < sign * qty)
    (added : addLot lots ticker session orderId qty px = .ok grown) : Signed sign grown ticker := by
  have inserted : ∃ row, grown = lots.insert (ticker, orderId) row ∧ 0 < sign * row.qty := by
    unfold addLot at added
    cases stored : lots.lookup (ticker, orderId) with
    | none =>
      rw [stored] at added
      exact ⟨_, (Except.ok.inj added).symm, own⟩
    | some old =>
      rw [stored] at added
      dsimp only at added
      split at added
      · cases added
      · refine ⟨_, (Except.ok.inj added).symm, ?_⟩
        have before := signed _ old stored rfl
        calc 0 < sign * old.qty + sign * qty := add_pos before own
          _ = sign * (old.qty + qty) := (mul_add _ _ _).symm
  obtain ⟨row, rfl, positive⟩ := inserted
  intro key lot found named
  by_cases same : key = (ticker, orderId)
  · rw [same, AList.lookup_insert] at found
    cases found
    exact positive
  · rw [AList.lookup_insert_ne same] at found
    exact signed key lot found named

/-- Opening a lot of one instrument leaves those of another. -/
theorem addLot_elsewhere {lots grown : Lots} {ticker other : Ticker} {session : Int} {qty px : ℚ}
    (different : other ≠ ticker)
    (added : addLot lots ticker session orderId qty px = .ok grown) {sign : ℚ}
    (signed : Signed sign lots other) : Signed sign grown other := by
  have inserted : ∃ row, grown = lots.insert (ticker, orderId) row := by
    unfold addLot at added
    split at added
    · exact ⟨_, (Except.ok.inj added).symm⟩
    · split at added
      · cases added
      · exact ⟨_, (Except.ok.inj added).symm⟩
  obtain ⟨row, rfl⟩ := inserted
  intro key lot found named
  have apart : key ≠ (ticker, orderId) := by
    rintro rfl
    exact different named.symm
  rw [AList.lookup_insert_ne apart] at found
  exact signed key lot found named

/-- The lots of a fill stay of one sign for each instrument. -/
theorem moveLots_oneSided {settings : LedgerSettings} {times : FillTimes} {book : Book}
    {fill : Fill} {fee qty : ℚ} {lots : Lots} {trades : List DayTrade} {closes : List Close}
    (carried : Carried book) (sided : ∀ ticker, OneSided book.lots ticker)
    (traded : Traded (book.position fill.ticker).qty fill qty)
    (moved : moveLots settings times book fill fee qty = .ok (lots, trades, closes)) :
    ∀ ticker, OneSided lots ticker := by
  intro ticker
  unfold moveLots at moved
  split at moved
  · cases moved
    exact (sided ticker).imp matchLots_signed matchLots_signed
  · rename_i opening
    split at moved
    · cases moved
    · rename_i opened
      cases moved
      unfold openLot at opened
      split at opened
      · cases opened
        exact sided ticker
      · by_cases same : ticker = fill.ticker
        · -- the position that an opening meets has its sign
          subst same
          have meets : ∀ sign : ℚ, sign = 1 ∨ sign = -1 →
              0 ≤ sign * (book.position fill.ticker).qty → fill.side.sign = sign →
              Signed sign lots fill.ticker := by
            intro sign unit nonneg own
            rw [← carried.carried] at nonneg
            refine addLot_signed ((sided _).signed unit nonneg) ?_ opened
            rw [own, ← mul_assoc]
            rcases unit with rfl | rfl
            · simpa using traded.positive
            · simpa using traded.positive
          have met := traded.sided
          cases side : fill.side with
          | buy =>
            rw [side] at met
            exact .inl (meets 1 (.inl rfl) (by simpa using met) (by rw [side]; rfl))
          | short =>
            rw [side] at met
            exact .inr (meets (-1) (.inr rfl) (by simpa using met) (by rw [side]; rfl))
          | sell => simp [side, Side.closing] at opening
          | cover => simp [side, Side.closing] at opening
        · exact (sided ticker).imp (addLot_elsewhere same opened) (addLot_elsewhere same opened)

/-- What fills and splits keep of a book without dust. -/
def OneSidedBook (book : Book) : Prop := Carried book ∧ ∀ ticker, OneSided book.lots ticker

theorem after_oneSided {settings : LedgerSettings} {book : Book} {step : LedgerStep}
    (account : settings.engine = .account) (sound : OneSidedBook book)
    (allowed : TradesClean settings book step) : OneSidedBook (after settings book step) := by
  obtain ⟨trades, clean⟩ := allowed
  refine ⟨(perform_carried account sound.1 clean).1, ?_⟩
  cases step with
  | settlement times terms => exact trades.elim
  | split ticker ex ratio =>
    intro other
    change OneSided (applySplit book ticker ex ratio).lots other
    rw [applySplit_lots]
    exact (sound.2 other).imp (fun signed => signed.split ticker ex trades)
      fun signed => signed.split ticker ex trades
  | fill times fill fees =>
    cases filled : applyFill settings times book fill fees with
    | error raised =>
      have same : after settings book (.fill times fill fees) = book := by
        simp [after, perform, filled, Except.map]
      rw [same]
      exact sound.2
    | ok applied =>
      have same : after settings book (.fill times fill fees) = applied.book := by
        simp [after, perform, filled, Except.map]
      rw [same]
      rcases applyFill_cases filled with ⟨-, rfl⟩ | ⟨qty, lots, days, closes, quantity, moved, rfl⟩
      · exact sound.2
      · exact moveLots_oneSided sound.1 sound.2 (fillQty_traded quantity) moved

/-- What was opened before the ex-date is at most what the lots are at the ratio. -/
theorem oldQty_le_units (lots : Lots) (ticker : Ticker) (ex : Int) {ratio : ℚ}
    (positive : 0 < ratio) :
    |oldQty lots ticker ex| * ratio ≤ unitsAtRatio lots ticker ex ratio := by
  have each : ∀ sign : ℚ, |sign| = 1 →
      oldQty lots ticker ex * (sign * ratio) ≤ unitsAtRatio lots ticker ex ratio := by
    intro sign unit
    unfold oldQty unitsAtRatio
    rw [← total_mul]
    refine total_le_total fun row _ => ?_
    by_cases named : row.1.1 = ticker
    · by_cases old : row.2.openedSession < ex
      · rw [if_pos ⟨named, old⟩, if_pos named, if_pos old, ← mul_assoc]
        refine mul_le_mul_of_nonneg_right ((le_abs_self _).trans_eq ?_) positive.le
        rw [abs_mul, unit, mul_one]
      · rw [if_neg (not_and_of_not_right _ old), if_pos named, if_neg old, zero_mul, mul_one]
        exact abs_nonneg _
    · rw [if_neg (not_and_of_not_left _ named), if_neg named, zero_mul]
  rcases abs_cases (oldQty lots ticker ex) with ⟨same, -⟩ | ⟨same, -⟩
  · rw [same]
    simpa using each 1 (by norm_num)
  · rw [same]
    have bound := each (-1) (by norm_num)
    linarith

/-- In a book without dust the costs agree exactly when the position cost what its lots did. -/
theorem costsAgree_iff {book : Book} (sound : OneSidedBook book) (ticker : Ticker) (ex : Int)
    {ratio : ℚ} (positive : 0 < ratio) :
    CostsAgree book ticker ex ratio ↔
      oldQty book.lots ticker ex = 0 ∨ lotCost book.lots ticker = positionCost book ticker := by
  unfold CostsAgree
  by_cases still : oldQty book.lots ticker ex = 0
  · exact iff_of_true (.inl still) (.inl still)
  · rw [or_iff_right still, or_iff_right still]
    have held : book.positions.lookup ticker ≠ none := by
      intro missing
      refine still (oldQty_of_unlisted ex fun key listed named => ?_)
      have rowed := sound.1.rowed key listed
      rw [named, ← AList.lookup_isSome, missing] at rowed
      cases rowed
    rw [or_iff_right held]
    have units : unitsAtRatio book.lots ticker ex ratio =
        |(book.position ticker).qty + oldQty book.lots ticker ex * (ratio - 1)| := by
      have sided : OneSided (mapRows (splitLot ticker ex ratio) book.lots) ticker :=
        (sound.2 ticker).imp (fun signed => signed.split ticker ex positive)
          fun signed => signed.split ticker ex positive
      rw [← lotUnits_split book.lots ticker ex positive, sided.lotUnits, splitLot_lotSum,
        if_pos rfl, sound.1.carried]
    have some : 0 < unitsAtRatio book.lots ticker ex ratio :=
      (mul_pos (abs_pos.mpr still) positive).trans_le (oldQty_le_units _ _ _ positive)
    rw [← units, mul_div_cancel₀ _ some.ne']

/-- In every book that a run reaches, a split multiplies what was opened before its ex-date by
the ratio, and it keeps what the position cost exactly when the costs agree; after fills and
splits of an account in which no dust arises, that is when nothing was opened before or the
position cost what its lots did. -/
theorem split_keeps_cost_iff (settings : LedgerSettings) (cash : ℚ) (steps : List LedgerStep) :
    ∀ book ∈ states (after settings) (Book.opening cash) steps,
      ∀ (ticker : Ticker) (ex : Int) (ratio : ℚ), 0 < ratio →
        oldQty (applySplit book ticker ex ratio).lots ticker ex =
          oldQty book.lots ticker ex * ratio ∧
        (positionCost (applySplit book ticker ex ratio) ticker = positionCost book ticker ↔
          CostsAgree book ticker ex ratio) ∧
        (settings.engine = .account →
          Admissible (after settings) (TradesClean settings) (Book.opening cash) steps →
          (CostsAgree book ticker ex ratio ↔ oldQty book.lots ticker ex = 0 ∨
            lotCost book.lots ticker = positionCost book ticker)) := by
  intro book reached ticker ex ratio positive
  refine ⟨?_, applySplit_cost_iff book ticker ex positive, fun account clean => ?_⟩
  · rw [applySplit_lots]
    exact oldQty_split book.lots ticker ex
  · have initially : OneSidedBook (Book.opening cash) :=
      ⟨opening_carried cash, fun ticker => .inl fun key lot found _ => by
        simp [Book.opening] at found⟩
    have sound : OneSidedBook book :=
      invariant_of_steps (fun _ _ held allowed => after_oneSided account held allowed) initially
        clean book reached
    exact costsAgree_iff sound ticker ex positive

/-- Two purchases at different prices and a sale of the first one's quantity. -/
def boughtTwice : List LedgerStep :=
  let times : FillTimes := fun id => some id
  [.fill times ⟨some (1, 10), "XYZ", .buy, 10, 10, 1⟩ none,
    .fill times ⟨some (2, 11), "XYZ", .buy, 10, 20, 1⟩ none]

def firstSold : LedgerStep :=
  .fill (fun id => some id) ⟨some (3, 12), "XYZ", .sell, 10, 20, 1⟩ none

/-- Before the sale a split keeps the 300 dollars that the position cost. -/
theorem boughtTwice_kept :
    positionCost (applySplit (boughtTwice.foldl (after ⟨.account, .margin⟩) (.opening 1000))
      "XYZ" 13 2) "XYZ" =
      positionCost (boughtTwice.foldl (after ⟨.account, .margin⟩) (.opening 1000)) "XYZ" := by
  obtain ⟨-, kept, agree⟩ := split_keeps_cost_iff ⟨.account, .margin⟩ 1000 boughtTwice _
    (last_mem_states _ _ _) "XYZ" 13 2 (by norm_num)
  exact kept.mpr ((agree rfl (by decide +kernel)).mpr (.inr (by decide +kernel)))

/-- After the sale the position cost 150 dollars and the lots left cost 200: a split writes
these to the position. -/
theorem firstSold_changed : ¬∀ (steps : List LedgerStep),
    ∀ book ∈ states (after ⟨.account, .margin⟩) (Book.opening 1000) steps,
      ∀ (ticker : Ticker) (ex : Int) (ratio : ℚ), 0 < ratio →
        positionCost (applySplit book ticker ex ratio) ticker = positionCost book ticker ∧
          oldQty (applySplit book ticker ex ratio).lots ticker ex =
            oldQty book.lots ticker ex * ratio := by
  intro every
  have kept := (every (boughtTwice ++ [firstSold]) _ (last_mem_states _ _ _) "XYZ" 13 2
    (by norm_num)).1
  revert kept
  decide +kernel

end TradingEngine.Ledger
