import TradingEngine.Ledger

/-!
# What a first-in first-out close takes

A close walks the queue of lots that carry its sign. Nothing is lost on the way:
for every value that a lot holds in proportion to its size, what the lots keep
and what the close takes add up to what the lots held. The only loss is dust,
and the quantities that the walk compares with it are listed so that a theorem
can exclude it. When the queue holds enough, the close takes exactly the
quantity it asked for.
-/

namespace TradingEngine.Ledger

open KeyedTables OrderTypes

/-- A quantity that is not dust: nothing, or more than the tolerance. -/
def Clean (qty : ℚ) : Prop := ¬ (0 < qty ∧ qty ≤ dust)

instance (qty : ℚ) : Decidable (Clean qty) := inferInstanceAs (Decidable (¬ (0 < qty ∧ qty ≤ dust)))

/-- The quantities that the walk compares with dust. -/
def loopResiduals : List (OrderId × Lot) → ℚ → List ℚ
  | [], _ => []
  | (_, lot) :: rest, remaining =>
    let consumed := min remaining |lot.qty|
    (|lot.qty| - consumed) :: (remaining - consumed) ::
      if remaining - consumed ≤ dust then [] else loopResiduals rest (remaining - consumed)

/-- The quantities that a close compares with dust, its own included. -/
def matchResiduals (times : FillTimes) (lots : Lots) (ticker : Ticker) (qty : ℚ)
    (closingShort : Bool) : List ℚ :=
  qty :: if qty ≤ dust then [] else loopResiduals (fifo times lots ticker closingShort) qty

/-- No comparison with dust is decided by dust. -/
def CleanMatch (times : FillTimes) (lots : Lots) (ticker : Ticker) (qty : ℚ)
    (closingShort : Bool) : Prop :=
  ∀ residual ∈ matchResiduals times lots ticker qty closingShort, Clean residual

instance (times : FillTimes) (lots : Lots) (ticker : Ticker) (qty : ℚ) (closingShort : Bool) :
    Decidable (CleanMatch times lots ticker qty closingShort) :=
  inferInstanceAs (Decidable
    (∀ residual ∈ matchResiduals times lots ticker qty closingShort, Clean residual))

/-- Total quantity that a close can take. -/
def closableQty (lots : Lots) (ticker : Ticker) (closingShort : Bool) : ℚ :=
  total (fun key lot => if key.1 = ticker ∧ Closes closingShort lot then |lot.qty| else 0) lots

/-- Value of what a close took, given the value of one share of each lot. -/
def takenValue (weight : OrderId → Int → ℚ → ℚ) (matched : List MatchedLot) : ℚ :=
  (matched.map fun lot => lot.qty * weight lot.openOrderId lot.openedSession lot.avgPx).sum

/-- Quantity that a close took. -/
def takenQty (matched : List MatchedLot) : ℚ := (matched.map MatchedLot.qty).sum

variable {qty : ℚ}

theorem clean_le_dust (clean : Clean qty) (nonneg : 0 ≤ qty) (small : qty ≤ dust) :
    qty = 0 := by
  by_contra positive
  exact clean ⟨lt_of_le_of_ne nonneg (Ne.symm positive), small⟩

/-- The queue rows are stored under distinct keys with the closing sign. -/
structure Queue (ticker : Ticker) (closingShort : Bool) (rows : List (OrderId × Lot))
    (lots : Lots) : Prop where
  distinct : (rows.map Prod.fst).Nodup
  stored : ∀ row ∈ rows, lots.lookup (ticker, row.1) = some row.2
  signed : ∀ row ∈ rows, Closes closingShort row.2

variable {closingShort : Bool} {lots : Lots}

theorem Queue.tail {ticker : Ticker} {row : OrderId × Lot}
    {rest : List (OrderId × Lot)} {other : Lots}
    (queue : Queue ticker closingShort (row :: rest) lots)
    (unchanged : ∀ id, id ≠ row.1 → other.lookup (ticker, id) = lots.lookup (ticker, id)) :
    Queue ticker closingShort rest other := by
  have names := queue.distinct
  rw [List.map_cons, List.nodup_cons] at names
  refine ⟨names.2, ?_, fun later listed => queue.signed later (List.mem_cons_of_mem _ listed)⟩
  intro later listed
  have different : later.1 ≠ row.1 := by
    intro same
    exact names.1 (same ▸ List.mem_map_of_mem listed)
  rw [unchanged later.1 different]
  exact queue.stored later (List.mem_cons_of_mem _ listed)

/-- The row that remains of a partly closed lot. -/
def reduced (closingShort : Bool) (lot : Lot) (left : ℚ) : Lot :=
  { lot with qty := if closingShort then -left else left }

/-- Lots after one lot of the queue was taken. -/
def takeLot (ticker : Ticker) (closingShort : Bool) (orderId : OrderId) (lot : Lot)
    (consumed : ℚ) (lots : Lots) : Lots :=
  if |lot.qty| - consumed ≤ dust then lots.erase (ticker, orderId)
  else lots.insert (ticker, orderId) (reduced closingShort lot (|lot.qty| - consumed))

/-- One turn of the walk, with its two cases named. -/
theorem matchLoop_cons (ticker : Ticker) (closingShort : Bool) (orderId : OrderId) (lot : Lot)
    (rest : List (OrderId × Lot)) (remaining : ℚ) (lots : Lots) :
    matchLoop ticker closingShort true ((orderId, lot) :: rest) remaining lots =
      let consumed := min remaining |lot.qty|
      let taken : MatchedLot := ⟨orderId, lot.openedSession, consumed, lot.avgPx⟩
      let after := takeLot ticker closingShort orderId lot consumed lots
      if remaining - consumed ≤ dust then ([taken], after)
      else
        let turn := matchLoop ticker closingShort true rest (remaining - consumed) after
        (taken :: turn.1, turn.2) := by
  simp only [matchLoop, takeLot, reduced, Bool.not_true, Bool.false_eq_true, if_false]

theorem takeLot_lookup_ne (ticker : Ticker) (closingShort : Bool) (orderId : OrderId) (lot : Lot)
    (consumed : ℚ) (lots : Lots) (key : Ticker × OrderId) (different : key ≠ (ticker, orderId)) :
    (takeLot ticker closingShort orderId lot consumed lots).lookup key = lots.lookup key := by
  unfold takeLot
  split
  · exact AList.lookup_erase_ne different
  · exact AList.lookup_insert_ne different

variable {orderId : OrderId}

theorem Queue.take {ticker : Ticker} {lot : Lot}
    {rest : List (OrderId × Lot)}
    (queue : Queue ticker closingShort ((orderId, lot) :: rest) lots) (consumed : ℚ) :
    Queue ticker closingShort rest (takeLot ticker closingShort orderId lot consumed lots) := by
  apply queue.tail
  intro id different
  exact takeLot_lookup_ne ticker closingShort orderId lot consumed lots (ticker, id)
    (by simpa using different)

/-- Taking one lot moves value from the lots to the close. A share keeps its
value because the row keeps its opening session and price. -/
theorem takeLot_total (weight : OrderId → Int → ℚ → ℚ) (value : Ticker × OrderId → Lot → ℚ)
    {ticker : Ticker}
    (proportional : ∀ id lot, Closes closingShort lot →
      value (ticker, id) lot = |lot.qty| * weight id lot.openedSession lot.avgPx) {lot :
      Lot} {consumed : ℚ}
    (stored : lots.lookup (ticker, orderId) = some lot) (signed : Closes closingShort lot)
    (within : consumed ≤ |lot.qty|) (clean : Clean (|lot.qty| - consumed)) :
    total value (takeLot ticker closingShort orderId lot consumed lots) +
      consumed * weight orderId lot.openedSession lot.avgPx = total value lots := by
  have tookAll := total_erase value stored
  rw [proportional orderId lot signed] at tookAll
  unfold takeLot
  split
  · rename_i nothingLeft
    have whole := clean_le_dust clean (by linarith) nothingLeft
    have same : consumed = |lot.qty| := by linarith
    rw [tookAll, same]
    ring
  · rename_i someLeft
    have positive : 0 < |lot.qty| - consumed := by
      have : (0 : ℚ) < dust := by norm_num [dust]
      linarith
    have kept : Closes closingShort (reduced closingShort lot (|lot.qty| - consumed)) := by
      cases closingShort <;> simp [Closes, reduced] <;> linarith
    have magnitude : |(reduced closingShort lot (|lot.qty| - consumed)).qty| =
        |lot.qty| - consumed := by
      cases closingShort <;> simp [reduced, abs_of_pos positive]
      rw [abs_sub_comm, abs_of_pos positive]
    rw [total_insert, proportional _ _ kept, magnitude, tookAll]
    simp only [reduced]
    ring

/-- The walk moves value from the lots to the close. Induction on the queue: each
turn moves the value of what it takes and leaves a shorter queue in place. -/
theorem matchLoop_total (weight : OrderId → Int → ℚ → ℚ) (value : Ticker × OrderId → Lot → ℚ)
    {ticker : Ticker}
    (proportional : ∀ id lot, Closes closingShort lot →
      value (ticker, id) lot = |lot.qty| * weight id lot.openedSession lot.avgPx)
    {rows : List (OrderId × Lot)} {remaining : ℚ}
    (queue : Queue ticker closingShort rows lots)
    (clean : ∀ residual ∈ loopResiduals rows remaining, Clean residual) :
    total value (matchLoop ticker closingShort true rows remaining lots).2 +
      takenValue weight (matchLoop ticker closingShort true rows remaining lots).1 =
        total value lots := by
  induction rows generalizing remaining lots with
  | nil => simp [matchLoop, takenValue]
  | cons row rest ih =>
    obtain ⟨orderId, lot⟩ := row
    have turn := takeLot_total weight value proportional
      (queue.stored (orderId, lot) List.mem_cons_self)
      (queue.signed (orderId, lot) List.mem_cons_self) (min_le_right remaining |lot.qty|)
      (clean _ (by simp [loopResiduals]))
    have shorter := queue.take (min remaining |lot.qty|)
    rw [matchLoop_cons]
    by_cases done : remaining - min remaining |lot.qty| ≤ dust
    · simpa only [done, if_true, takenValue, List.map_cons, List.map_nil, List.sum_cons,
        List.sum_nil, add_zero] using turn
    · have cleanRest : ∀ residual ∈ loopResiduals rest (remaining - min remaining |lot.qty|),
          Clean residual :=
        fun residual listed => clean residual (by simp [loopResiduals, done, listed])
      have later := ih shorter cleanRest
      simp only [done, if_false, takenValue, List.map_cons, List.sum_cons] at later ⊢
      linarith

/-- The walk takes what was asked for, or everything in the queue. -/
theorem matchLoop_takenQty {ticker : Ticker} {rows : List (OrderId × Lot)}
    {remaining : ℚ} (lots : Lots) (asked : 0 ≤ remaining)
    (clean : ∀ residual ∈ loopResiduals rows remaining, Clean residual) :
    takenQty (matchLoop ticker closingShort true rows remaining lots).1 =
      min remaining (rows.map fun row => |row.2.qty|).sum := by
  induction rows generalizing remaining lots with
  | nil => simp [matchLoop, takenQty, asked]
  | cons row rest ih =>
    obtain ⟨orderId, lot⟩ := row
    have others : 0 ≤ (rest.map fun row => |row.2.qty|).sum := by
      apply List.sum_nonneg
      simp only [List.mem_map]
      rintro _ ⟨other, _, rfl⟩
      exact abs_nonneg _
    have nonneg : 0 ≤ remaining - min remaining |lot.qty| := by
      linarith [min_le_left remaining |lot.qty|]
    rw [matchLoop_cons]
    by_cases done : remaining - min remaining |lot.qty| ≤ dust
    · have exhausted := clean_le_dust (clean _ (by simp [loopResiduals])) nonneg done
      have enough : remaining ≤ |lot.qty| := by
        by_contra short
        push Not at short
        rw [min_eq_right short.le] at exhausted
        linarith
      simp only [done, if_true, takenQty, List.map_cons, List.map_nil, List.sum_cons, List.sum_nil,
        add_zero]
      rw [min_eq_left enough, min_eq_left]
      linarith
    · have later := ih (takeLot ticker closingShort orderId lot
        (min remaining |lot.qty|) lots) nonneg
        fun residual listed => clean residual (by simp [loopResiduals, done, listed])
      have all : |lot.qty| ≤ remaining := by
        by_contra more
        push Not at more
        rw [min_eq_left more.le] at done
        norm_num [dust] at done
      simp only [done, if_false, takenQty, List.map_cons, List.sum_cons] at later ⊢
      rw [later, min_eq_right all, ← min_add_add_left]
      congr 1
      ring

theorem takeLot_price {ticker : Ticker} {lot : Lot}
    {consumed : ℚ} (stored : lots.lookup (ticker, orderId) = some lot)
    {key : Ticker × OrderId} {row : Lot}
    (found : (takeLot ticker closingShort orderId lot consumed lots).lookup key = some row) :
    ∃ before, lots.lookup key = some before ∧ before.avgPx = row.avgPx := by
  by_cases same : key = (ticker, orderId)
  · subst same
    refine ⟨lot, stored, ?_⟩
    unfold takeLot at found
    split at found
    · simp at found
    · rw [AList.lookup_insert] at found
      cases found
      rfl
  · rw [takeLot_lookup_ne _ _ _ _ _ _ _ same] at found
    exact ⟨row, found, rfl⟩

theorem matchLoop_price {ticker : Ticker} {rows : List (OrderId × Lot)}
    {remaining : ℚ} (queue : Queue ticker closingShort rows lots)
    {key : Ticker × OrderId} {row : Lot}
    (found : (matchLoop ticker closingShort true rows remaining lots).2.lookup key = some row) :
    ∃ before, lots.lookup key = some before ∧ before.avgPx = row.avgPx := by
  induction rows generalizing remaining lots with
  | nil => exact ⟨row, by simpa [matchLoop] using found, rfl⟩
  | cons head rest ih =>
    obtain ⟨orderId, lot⟩ := head
    have stored := queue.stored (orderId, lot) List.mem_cons_self
    have shorter := queue.take (min remaining |lot.qty|)
    rw [matchLoop_cons] at found
    by_cases done : remaining - min remaining |lot.qty| ≤ dust
    · simp only [done, if_true] at found
      exact takeLot_price stored found
    · simp only [done, if_false] at found
      obtain ⟨middle, present, same⟩ := ih shorter found
      obtain ⟨before, first, same'⟩ := takeLot_price stored present
      exact ⟨before, first, same'.trans same⟩

/-- What the walk takes is a positive part of a row of the queue. -/
theorem matchLoop_taken {ticker : Ticker} {rows : List (OrderId × Lot)}
    {remaining : ℚ} (asked : 0 < remaining)
    (signed : ∀ row ∈ rows, Closes closingShort row.2) {taken : MatchedLot}
    (listed : taken ∈ (matchLoop ticker closingShort true rows remaining lots).1) :
    0 < taken.qty ∧ ∃ row ∈ rows, row.1 = taken.openOrderId ∧ row.2.avgPx = taken.avgPx := by
  induction rows generalizing remaining lots with
  | nil => simp [matchLoop] at listed
  | cons head rest ih =>
    obtain ⟨orderId, lot⟩ := head
    have size : 0 < |lot.qty| := by
      have sign := signed (orderId, lot) List.mem_cons_self
      apply abs_pos.mpr
      intro zero
      cases closingShort <;> simp [Closes, zero] at sign
    have first : 0 < min remaining |lot.qty| ∧ ∃ row ∈ (orderId, lot) :: rest,
        row.1 = orderId ∧ row.2.avgPx = lot.avgPx :=
      ⟨lt_min asked size, (orderId, lot), List.mem_cons_self, rfl, rfl⟩
    rw [matchLoop_cons] at listed
    by_cases done : remaining - min remaining |lot.qty| ≤ dust
    · simp only [done, if_true, List.mem_singleton] at listed
      exact listed ▸ first
    · simp only [done, if_false, List.mem_cons] at listed
      rcases listed with rfl | later
      · exact first
      · have more : 0 < remaining - min remaining |lot.qty| := by
          have : (0 : ℚ) < dust := by norm_num [dust]
          linarith
        obtain ⟨positive, row, member, same⟩ := ih more
          (fun row member => signed row (List.mem_cons_of_mem _ member)) later
        exact ⟨positive, row, List.mem_cons_of_mem _ member, same⟩

/-- The queue of a close holds stored rows under distinct keys. -/
theorem fifo_queue (times : FillTimes) (lots : Lots) (ticker : Ticker) (closingShort : Bool) :
    Queue ticker closingShort (fifo times lots ticker closingShort) lots := by
  have reordered : (fifo times lots ticker closingShort).Perm (closable lots ticker closingShort) :=
    List.perm_insertionSort _ _
  have member : ∀ row ∈ closable lots ticker closingShort,
      (⟨(ticker, row.1), row.2⟩ : Σ _ : Ticker × OrderId, Lot) ∈ lots.entries ∧
        Closes closingShort row.2 := by
    intro row listed
    obtain ⟨⟨⟨name, id⟩, lot⟩, stored, shown⟩ := List.mem_filterMap.mp listed
    split at shown
    · rename_i fits
      obtain rfl : (id, lot) = row := Option.some.inj shown
      obtain rfl : name = ticker := fits.1
      exact ⟨stored, fits.2⟩
    · cases shown
  refine ⟨?_, ?_, ?_⟩
  · rw [(reordered.map Prod.fst).nodup_iff]
    have keys : (lots.entries.map Sigma.fst).Nodup := lots.nodupKeys
    have entries : lots.entries.Nodup := List.Nodup.of_map _ keys
    apply List.Nodup.map_on
    · intro one listed other listed' same
      have found := lookup_of_mem (member one listed).1
      have found' := lookup_of_mem (member other listed').1
      rw [same] at found
      exact Prod.ext same (Option.some.inj (found.symm.trans found'))
    · apply List.Nodup.filterMap _ entries
      rintro ⟨⟨name, id⟩, lot⟩ ⟨⟨name', id'⟩, lot'⟩ row shown shown'
      simp only [Option.mem_def] at shown shown'
      split at shown
      · split at shown'
        · cases shown
          cases shown'
          simp_all
        · cases shown'
      · cases shown
  · intro row listed
    exact lookup_of_mem (member row (reordered.mem_iff.mp listed)).1
  · intro row listed
    exact (member row (reordered.mem_iff.mp listed)).2

/-- The queue holds exactly the closable quantity. -/
theorem fifo_qty (times : FillTimes) (lots : Lots) (ticker : Ticker) (closingShort : Bool) :
    ((fifo times lots ticker closingShort).map fun row => |row.2.qty|).sum =
      closableQty lots ticker closingShort := by
  have reordered : (fifo times lots ticker closingShort).Perm (closable lots ticker closingShort) :=
    List.perm_insertionSort _ _
  rw [(reordered.map _).sum_eq]
  unfold closable closableQty total
  generalize lots.entries = rows
  induction rows with
  | nil => rfl
  | cons row rest ih =>
    by_cases fits : row.1.1 = ticker ∧ Closes closingShort row.2
    · simp only [List.filterMap_cons, if_pos fits, List.map_cons, List.sum_cons,
        ih]
    · simp only [List.filterMap_cons, if_neg fits, List.map_cons, List.sum_cons, zero_add,
        ih]

theorem matchLots_total (weight : OrderId → Int → ℚ → ℚ) (value : Ticker × OrderId → Lot → ℚ)
    {times : FillTimes} {ticker : Ticker}
    (proportional : ∀ id lot, Closes closingShort lot →
      value (ticker, id) lot = |lot.qty| * weight id lot.openedSession lot.avgPx)
    (clean : CleanMatch times lots ticker qty closingShort) :
    total value (matchLots times lots ticker qty closingShort true).2 +
      takenValue weight (matchLots times lots ticker qty closingShort true).1 =
        total value lots := by
  unfold matchLots
  split
  · simp [takenValue]
  · rename_i large
    refine matchLoop_total weight value proportional (fifo_queue ..) ?_
    intro residual listed
    exact clean residual (by simp [matchResiduals, large, listed])

/-- A close of a quantity that the lots hold takes exactly that quantity. -/
theorem matchLots_takenQty {times : FillTimes} {ticker : Ticker} (nonneg : 0 ≤ qty)
    (held : qty ≤ closableQty lots ticker closingShort)
    (clean : CleanMatch times lots ticker qty closingShort) :
    takenQty (matchLots times lots ticker qty closingShort true).1 = qty := by
  unfold matchLots
  split
  · rename_i small
    have none := clean_le_dust (clean qty (by simp [matchResiduals])) nonneg small
    simp [takenQty, none]
  · rename_i large
    rw [matchLoop_takenQty lots nonneg, fifo_qty, min_eq_left held]
    intro residual listed
    exact clean residual (by simp [matchResiduals, large, listed])

theorem matchLots_price {times : FillTimes} {ticker : Ticker} {key : Ticker × OrderId} {row : Lot}
    (found : (matchLots times lots ticker qty closingShort true).2.lookup key = some row) :
    ∃ before, lots.lookup key = some before ∧ before.avgPx = row.avgPx := by
  unfold matchLots at found
  split at found
  · exact ⟨row, found, rfl⟩
  · exact matchLoop_price (fifo_queue ..) found

theorem matchLots_keys {times : FillTimes} {ticker : Ticker} {key : Ticker × OrderId}
    (kept : key ∈ (matchLots times lots ticker qty closingShort true).2) : key ∈ lots := by
  rw [← AList.lookup_isSome] at kept ⊢
  obtain ⟨row, found⟩ := Option.isSome_iff_exists.mp kept
  obtain ⟨before, present, _⟩ := matchLots_price found
  rw [present]
  rfl

/-- What a close takes is a positive part of a stored lot. -/
theorem matchLots_taken {times : FillTimes} {ticker : Ticker} {taken : MatchedLot}
    (listed : taken ∈ (matchLots times lots ticker qty closingShort true).1) :
    0 < taken.qty ∧
      ∃ lot, lots.lookup (ticker, taken.openOrderId) = some lot ∧ lot.avgPx = taken.avgPx := by
  unfold matchLots at listed
  split at listed
  · simp at listed
  · rename_i large
    have queue := fifo_queue times lots ticker closingShort
    have asked : 0 < qty := by
      have : (0 : ℚ) < dust := by norm_num [dust]
      linarith
    obtain ⟨positive, row, member, name, price⟩ := matchLoop_taken asked queue.signed listed
    exact ⟨positive, row.2, name ▸ queue.stored row member, price⟩

end TradingEngine.Ledger
