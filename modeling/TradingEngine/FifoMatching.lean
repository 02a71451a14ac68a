import TradingEngine.DayTradePreview
import TradingEngine.LotMatching

/-!
# The law of a first-in first-out close

The queue of a close holds the lots of its instrument and sign, ordered by opening session,
then by the time of the fill, then by the id of the order. A close serves the queue from its
front. Every lot that it serves is taken whole but the last, and it stops when no more than
dust is asked for. Of a lot that is served the rest is kept, unless the rest is dust; no
other row changes.
-/

namespace TradingEngine.Ledger

open KeyedTables OrderTypes

/-- A recorded time, with a missing one after all others. -/
def fifoTime : Option Int → WithTop ℤ
  | none => ⊤
  | some time => time

/-- What a lot is ordered by: its opening session, its fill time and its order. -/
def fifoKey (times : FillTimes) (row : OrderId × Lot) : ℤ ×ₗ WithTop ℤ ×ₗ OrderId :=
  toLex (row.2.openedSession, toLex (fifoTime (times row.1), row.1))

theorem timeLe_iff (earlier later : Option Int) :
    timeLe earlier later = true ↔ fifoTime earlier ≤ fifoTime later := by
  cases earlier <;> cases later <;> simp [timeLe, fifoTime]

theorem fifoTime_injective : Function.Injective fifoTime := by
  intro one other same
  cases one <;> cases other <;> simp_all [fifoTime]

theorem fifoLe_iff (times : FillTimes) (one other : OrderId × Lot) :
    fifoLe times one other = true ↔ fifoKey times one ≤ fifoKey times other := by
  have strict : (timeLe (times one.1) (times other.1) && !timeLe (times other.1) (times one.1)) =
      true ↔ fifoTime (times one.1) < fifoTime (times other.1) := by
    rw [Bool.and_eq_true, Bool.not_eq_true', ← Bool.not_eq_true, timeLe_iff, timeLe_iff,
      lt_iff_le_not_ge]
  simp only [fifoLe, fifoKey, Prod.Lex.le_iff, ofLex_toLex, Bool.or_eq_true, Bool.and_eq_true,
    decide_eq_true_eq, ← fifoTime_injective.eq_iff (a := times one.1)]
  rw [← strict, Bool.and_eq_true]

theorem fifo_ordered (times : FillTimes) (lots : Lots) (ticker : Ticker) (closingShort : Bool) :
    (fifo times lots ticker closingShort).Pairwise
      fun earlier later => fifoKey times earlier ≤ fifoKey times later := by
  have sorted : (fifo times lots ticker closingShort).Pairwise
      fun earlier later => fifoLe times earlier later = true := by
    have total : Std.Total fun earlier later : OrderId × Lot => fifoLe times earlier later = true :=
      ⟨fun earlier later => by
        rw [fifoLe_iff, fifoLe_iff]
        exact le_total _ _⟩
    have trans : IsTrans (OrderId × Lot) fun earlier later => fifoLe times earlier later = true :=
      ⟨fun earlier middle later first second => by
        rw [fifoLe_iff] at first second ⊢
        exact first.trans second⟩
    exact List.pairwise_insertionSort _ _
  exact sorted.imp fun ordered => (fifoLe_iff times _ _).mp ordered

theorem fifo_perm (times : FillTimes) (lots : Lots) (ticker : Ticker) (closingShort : Bool) :
    (fifo times lots ticker closingShort).Perm (closable lots ticker closingShort) :=
  List.perm_insertionSort _ _

/-- A match takes a positive part of a lot and names it. -/
structure Serves (row : OrderId × Lot) (taken : MatchedLot) : Prop where
  order : taken.openOrderId = row.1
  session : taken.openedSession = row.2.openedSession
  price : taken.avgPx = row.2.avgPx
  positive : 0 < taken.qty
  within : taken.qty ≤ |row.2.qty|

/-- Matches that serve a queue from its front, each lot whole but the last. -/
inductive Front : List (OrderId × Lot) → List MatchedLot → Prop where
  | nothing (rows : List (OrderId × Lot)) : Front rows []
  | last {row : OrderId × Lot} {rest : List (OrderId × Lot)} {taken : MatchedLot}
      (serves : Serves row taken) : Front (row :: rest) [taken]
  | whole {row : OrderId × Lot} {rest : List (OrderId × Lot)} {taken : MatchedLot}
      {matched : List MatchedLot} (serves : Serves row taken) (all : taken.qty = |row.2.qty|)
      (more : Front rest matched) : Front (row :: rest) (taken :: matched)

variable {ticker : Ticker} {closingShort : Bool} {rows : List (OrderId × Lot)} {remaining qty : ℚ}
  {lots : Lots} {times : FillTimes} {matched : List MatchedLot}

theorem Front.served (front : Front rows matched) {taken : MatchedLot} (listed : taken ∈ matched) :
    ∃ row ∈ rows, Serves row taken := by
  induction front with
  | nothing rows => cases listed
  | last serves => exact ⟨_, List.mem_cons_self, List.mem_singleton.mp listed ▸ serves⟩
  | whole serves all more ih =>
    rcases List.mem_cons.mp listed with rfl | later
    · exact ⟨_, List.mem_cons_self, serves⟩
    · obtain ⟨row, member, serves⟩ := ih later
      exact ⟨row, List.mem_cons_of_mem _ member, serves⟩

theorem dust_pos : 0 < dust := by norm_num [dust]

theorem size_pos {lot : Lot} (signed : Closes closingShort lot) : 0 < |lot.qty| := by
  apply abs_pos.mpr
  intro zero
  cases closingShort <;> simp [Closes, zero] at signed

theorem serves_first (asked : 0 < remaining) {row : OrderId × Lot}
    (signed : Closes closingShort row.2) :
    Serves row ⟨row.1, row.2.openedSession, min remaining |row.2.qty|, row.2.avgPx⟩ :=
  ⟨rfl, rfl, rfl, lt_min asked (size_pos signed), min_le_right _ _⟩

/-- A walk that goes on has taken the whole of its lot. -/
theorem whole_of_more {size : ℚ} (more : ¬remaining - min remaining size ≤ dust) :
    min remaining size = size := by
  apply min_eq_right
  by_contra short
  rw [min_eq_left (not_le.mp short).le, sub_self] at more
  exact more dust_pos.le

theorem matchLoop_front (asked : 0 < remaining)
    (signed : ∀ row ∈ rows, Closes closingShort row.2) :
    Front rows (matchLoop ticker closingShort true rows remaining lots).1 := by
  induction rows generalizing remaining lots with
  | nil => exact .nothing []
  | cons row rest ih =>
    obtain ⟨orderId, lot⟩ := row
    have first := serves_first asked (signed (orderId, lot) List.mem_cons_self)
    rw [matchLoop_cons]
    by_cases done : remaining - min remaining |lot.qty| ≤ dust
    · simp only [done, if_true]
      exact .last first
    · simp only [done, if_false]
      exact .whole first (whole_of_more done) (ih
        (dust_pos.trans (not_le.mp done))
        fun later listed => signed later (List.mem_cons_of_mem _ listed))

/-- A walk takes what is asked for, up to dust, or all that the queue holds. -/
theorem matchLoop_takenQty_near (lots : Lots) (asked : 0 ≤ remaining) :
    |takenQty (matchLoop ticker closingShort true rows remaining lots).1 -
      min remaining (rows.map fun row => |row.2.qty|).sum| ≤ dust := by
  induction rows generalizing remaining lots with
  | nil => simpa [matchLoop, takenQty, asked] using dust_pos.le
  | cons row rest ih =>
    obtain ⟨orderId, lot⟩ := row
    have others : 0 ≤ (rest.map fun row => |row.2.qty|).sum := by
      apply List.sum_nonneg
      simp only [List.mem_map]
      rintro _ ⟨other, _, rfl⟩
      exact abs_nonneg _
    rw [matchLoop_cons, List.map_cons, List.sum_cons]
    by_cases done : remaining - min remaining |lot.qty| ≤ dust
    · simp only [done, if_true, takenQty, List.map_cons, List.map_nil, List.sum_cons, List.sum_nil,
        add_zero]
      have atLeast : min remaining |lot.qty| ≤
          min remaining (|lot.qty| + (rest.map fun row => |row.2.qty|).sum) :=
        min_le_min_left _ (by linarith)
      have atMost := min_le_left remaining (|lot.qty| + (rest.map fun row => |row.2.qty|).sum)
      rw [abs_le]
      constructor <;> linarith
    · have later := ih (takeLot ticker closingShort orderId lot
        (min remaining |lot.qty|) lots) (dust_pos.le.trans (not_le.mp done).le)
      simp only [done, if_false, takenQty, List.map_cons, List.sum_cons] at later ⊢
      rw [whole_of_more done] at later ⊢
      rw [show remaining = |lot.qty| + (remaining - |lot.qty|) by ring, min_add_add_left,
        add_sub_add_left_eq_sub]
      simpa using later

/-- What is left of a lot: nothing, when it would be dust. -/
def leftLot (closingShort : Bool) (lot : Lot) (taken : ℚ) : Option Lot :=
  if |lot.qty| - taken ≤ dust then none else some (reduced closingShort lot (|lot.qty| - taken))

/-- Lots after matches of one instrument. -/
structure Remainder (ticker : Ticker) (closingShort : Bool) (matched : List MatchedLot)
    (before after : Lots) : Prop where
  served : ∀ taken ∈ matched, ∃ lot, before.lookup (ticker, taken.openOrderId) = some lot ∧
    after.lookup (ticker, taken.openOrderId) = leftLot closingShort lot taken.qty
  others : ∀ key, (∀ taken ∈ matched, key ≠ (ticker, taken.openOrderId)) →
    after.lookup key = before.lookup key

theorem takeLot_lookup (ticker : Ticker) (closingShort : Bool) (orderId : OrderId) (lot : Lot)
    (consumed : ℚ) (lots : Lots) :
    (takeLot ticker closingShort orderId lot consumed lots).lookup (ticker, orderId) =
      leftLot closingShort lot consumed := by
  unfold takeLot leftLot
  split
  · exact AList.lookup_erase _ _
  · exact AList.lookup_insert _

/-- Induction on the queue. The first lot is not touched again, for its order is not among the
later ones. -/
theorem matchLoop_remainder (remaining : ℚ) (queue : Queue ticker closingShort rows lots) :
    Remainder ticker closingShort (matchLoop ticker closingShort true rows remaining lots).1 lots
      (matchLoop ticker closingShort true rows remaining lots).2 := by
  induction rows generalizing remaining lots with
  | nil => exact ⟨fun taken listed => absurd listed List.not_mem_nil, fun key _ => rfl⟩
  | cons row rest ih =>
    obtain ⟨orderId, lot⟩ := row
    have stored := queue.stored (orderId, lot) List.mem_cons_self
    have here := takeLot_lookup ticker closingShort orderId lot (min remaining |lot.qty|) lots
    have elsewhere := takeLot_lookup_ne ticker closingShort orderId lot (min remaining |lot.qty|)
      lots
    rw [matchLoop_cons]
    by_cases done : remaining - min remaining |lot.qty| ≤ dust
    · simp only [done, if_true]
      constructor
      · intro taken listed
        rw [List.mem_singleton.mp listed]
        exact ⟨lot, stored, here⟩
      · exact fun key apart => elsewhere key (apart _ (List.mem_singleton_self _))
    · simp only [done, if_false]
      have shorter := queue.take (min remaining |lot.qty|)
      obtain ⟨served, others⟩ : Remainder ticker closingShort
          (matchLoop ticker closingShort true rest (remaining - min remaining |lot.qty|)
            (takeLot ticker closingShort orderId lot (min remaining |lot.qty|) lots)).1 _ _ :=
        ih _ shorter
      have later : ∀ taken ∈ (matchLoop ticker closingShort true rest
          (remaining - min remaining |lot.qty|)
          (takeLot ticker closingShort orderId lot (min remaining |lot.qty|) lots)).1,
          (ticker, taken.openOrderId) ≠ (ticker, orderId) := by
        intro taken listed same
        obtain ⟨row, member, serves⟩ := (matchLoop_front (dust_pos.trans (not_le.mp done))
          shorter.signed).served listed
        have names := (List.nodup_cons.mp queue.distinct).1
        have order : row.1 = orderId := serves.order.symm.trans (Prod.mk.inj same).2
        exact names (List.mem_map.mpr ⟨row, member, order⟩)
      constructor
      · intro taken listed
        rcases List.mem_cons.mp listed with rfl | rest'
        · refine ⟨lot, stored, ?_⟩
          rw [others _ fun taken listed => (later taken listed).symm]
          exact here
        · obtain ⟨before, found, left⟩ := served taken rest'
          exact ⟨before, by rwa [elsewhere _ (later taken rest')] at found, left⟩
      · intro key apart
        rw [others key fun taken listed => apart taken (List.mem_cons_of_mem _ listed)]
        exact elsewhere key (apart _ List.mem_cons_self)

/-- What a consuming close takes and leaves. -/
structure FifoLaw (times : FillTimes) (ticker : Ticker) (closingShort : Bool) (qty : ℚ)
    (before : Lots) (matched : List MatchedLot) (after : Lots) : Prop where
  total : |takenQty matched - min (max qty 0) (closableQty before ticker closingShort)| ≤ dust
  front : Front (fifo times before ticker closingShort) matched
  remainder : Remainder ticker closingShort matched before after
  untouched : ∀ key lot, before.lookup key = some lot →
    key.1 ≠ ticker ∨ ¬Closes closingShort lot → after.lookup key = some lot

theorem closableQty_nonneg (lots : Lots) (ticker : Ticker) (closingShort : Bool) :
    0 ≤ closableQty lots ticker closingShort := by
  rw [← fifo_qty (fun _ => none)]
  apply List.sum_nonneg
  simp only [List.mem_map]
  rintro _ ⟨row, _, rfl⟩
  exact abs_nonneg _

theorem remainder_untouched {before after : Lots}
    (remainder : Remainder ticker closingShort matched before after)
    (front : Front (fifo times before ticker closingShort) matched)
    {key : Ticker × OrderId} {lot : Lot} (stored : before.lookup key = some lot)
    (apart : key.1 ≠ ticker ∨ ¬Closes closingShort lot) : after.lookup key = some lot := by
  rw [remainder.others key, stored]
  rintro taken listed rfl
  obtain ⟨row, member, serves⟩ := front.served listed
  have queue := fifo_queue times before ticker closingShort
  have same := queue.stored row member
  rw [← serves.order, stored, Option.some.injEq] at same
  exact apart.elim (fun other => other rfl) fun unsigned =>
    unsigned (same ▸ queue.signed row member)

theorem matchLoop_looking (ticker : Ticker) (closingShort : Bool) (rows : List (OrderId × Lot))
    (remaining : ℚ) (lots : Lots) :
    (matchLoop ticker closingShort false rows remaining lots).2 = lots := by
  induction rows generalizing remaining with
  | nil => rfl
  | cons row rest ih =>
    simp only [matchLoop, Bool.not_false, if_true]
    split
    · rfl
    · exact ih _

theorem matchLots_looking (times : FillTimes) (lots : Lots) (ticker : Ticker) (qty : ℚ)
    (closingShort : Bool) :
    matchLots times lots ticker qty closingShort false =
      ((matchLots times lots ticker qty closingShort true).1, lots) := by
  refine Prod.ext (Accounts.matchLots_taken times lots ticker qty closingShort).symm ?_
  unfold matchLots
  split
  · rfl
  · exact matchLoop_looking ..

theorem matchLots_fifoLaw (times : FillTimes) (lots : Lots) (ticker : Ticker) (qty : ℚ)
    (closingShort : Bool) :
    FifoLaw times ticker closingShort qty lots
      (matchLots times lots ticker qty closingShort true).1
      (matchLots times lots ticker qty closingShort true).2 := by
  have held := closableQty_nonneg lots ticker closingShort
  unfold matchLots
  split
  · rename_i small
    refine ⟨?_, .nothing _, ⟨fun taken listed => absurd listed List.not_mem_nil,
      fun key _ => rfl⟩, fun key lot stored _ => stored⟩
    have asked : max qty 0 ≤ dust := max_le small dust_pos.le
    have nonneg : 0 ≤ min (max qty 0) (closableQty lots ticker closingShort) :=
      le_min (le_max_right _ _) held
    rw [takenQty, List.map_nil, List.sum_nil, zero_sub, abs_neg, abs_of_nonneg nonneg]
    exact (min_le_left _ _).trans asked
  · rename_i large
    have asked : 0 < qty := dust_pos.trans (not_le.mp large)
    have queue := fifo_queue times lots ticker closingShort
    have front : Front (fifo times lots ticker closingShort)
        (matchLoop ticker closingShort true (fifo times lots ticker closingShort) qty lots).1 :=
      matchLoop_front asked queue.signed
    have remainder := matchLoop_remainder qty queue
    refine ⟨?_, front, remainder, fun key lot => remainder_untouched remainder front⟩
    rw [max_eq_left asked.le, ← fifo_qty times]
    exact matchLoop_takenQty_near lots asked.le

/-- A close serves the ordered queue of its instrument and sign. Looking instead of consuming
finds the same matches and changes nothing. -/
theorem matchLots_law (times : FillTimes) (lots : Lots) (ticker : Ticker) (qty : ℚ)
    (closingShort : Bool) :
    (fifo times lots ticker closingShort).Perm (closable lots ticker closingShort) ∧
      (fifo times lots ticker closingShort).Pairwise
        (fun earlier later => fifoKey times earlier ≤ fifoKey times later) ∧
      FifoLaw times ticker closingShort qty lots
        (matchLots times lots ticker qty closingShort true).1
        (matchLots times lots ticker qty closingShort true).2 ∧
      matchLots times lots ticker qty closingShort false =
        ((matchLots times lots ticker qty closingShort true).1, lots) :=
  ⟨fifo_perm times lots ticker closingShort, fifo_ordered times lots ticker closingShort,
    matchLots_fifoLaw times lots ticker qty closingShort,
    matchLots_looking times lots ticker qty closingShort⟩

/-- A negative quantity takes nothing, and dust that would be left of a lot is dropped with it. -/
theorem negative_and_dust :
    (¬∀ (times : FillTimes) (lots : Lots) (ticker : Ticker) (qty : ℚ) (closingShort : Bool),
      |takenQty (matchLots times lots ticker qty closingShort true).1 -
        min qty (closableQty lots ticker closingShort)| ≤ dust) ∧
    ¬∀ (times : FillTimes) (lots : Lots) (ticker : Ticker) (qty : ℚ) (closingShort : Bool),
      ∀ taken ∈ (matchLots times lots ticker qty closingShort true).1, ∀ lot,
        lots.lookup (ticker, taken.openOrderId) = some lot → taken.qty < |lot.qty| →
          (matchLots times lots ticker qty closingShort true).2.lookup
              (ticker, taken.openOrderId) =
            some (reduced closingShort lot (|lot.qty| - taken.qty)) := by
  constructor
  · intro law
    have none := law (fun _ => none) ∅ "AAA" (-1) false
    revert none
    decide +kernel
  · intro law
    let lots : Lots := (∅ : Lots).insert ("AAA", 1) ⟨0, 1, 10⟩
    let asked : ℚ := 1 - 1 / (2 * 10 ^ 12)
    have kept := law (fun _ => none) lots "AAA" asked false ⟨1, 0, asked, 10⟩
      (by decide +kernel) ⟨0, 1, 10⟩ (by decide +kernel) (by decide +kernel)
    revert kept
    decide +kernel

end TradingEngine.Ledger
