import TradingEngine.BookSoundness

/-!
# Splits of instruments that are not traded

The replay of a ledger that never trades an instrument holds no lot of it, so a split of
the instrument changes nothing, wherever it stands among the ledger's events.
-/

namespace TradingEngine.Ledger

open KeyedTables Runs

/-- An action that changes no state may stand anywhere in a sorted run. -/
theorem foldlM_orderedInsert {σ α ε : Type*} {step : σ → α → Except ε σ} {before : α → α → Prop}
    [DecidableRel before] (invariant : σ → Prop) {actions : List α} {added : α}
    (idle : ∀ state, invariant state → step state added = .ok state)
    (kept : ∀ action ∈ actions, ∀ state next, invariant state → step state action = .ok next →
      invariant next)
    {state : σ} (initially : invariant state) :
    (actions.orderedInsert before added).foldlM step state = actions.foldlM step state := by
  induction actions generalizing state with
  | nil =>
    rw [List.orderedInsert_nil, List.foldlM_cons, idle state initially]
    rfl
  | cons head rest ih =>
    rw [List.orderedInsert_cons]
    split
    · rw [List.foldlM_cons, idle state initially]
      rfl
    · rw [List.foldlM_cons, List.foldlM_cons]
      cases moved : step state head with
      | error raised => rfl
      | ok next =>
        refine ih ?_ (kept head List.mem_cons_self state next initially moved)
        intro action listed
        exact kept action (List.mem_cons_of_mem _ listed)

/-- No lot of an instrument. -/
def LotsApart (ticker : Ticker) (lots : Lots) : Prop :=
  ∀ key lot, lots.lookup key = some lot → key.1 ≠ ticker

namespace LotsApart

variable {ticker : Ticker} {lots : Lots}

theorem insert (apart : LotsApart ticker lots) {key : Ticker × OrderId} {row : Lot}
    (other : key.1 ≠ ticker) : LotsApart ticker (lots.insert key row) := by
  intro listed lot found
  by_cases same : listed = key
  · exact same ▸ other
  · rw [AList.lookup_insert_ne same] at found
    exact apart listed lot found

theorem add {grown : Lots} {other : Ticker} {session : Int} {orderId : OrderId} {qty px : ℚ}
    (apart : LotsApart ticker lots) (different : other ≠ ticker)
    (added : addLot lots other session orderId qty px = .ok grown) : LotsApart ticker grown := by
  unfold addLot at added
  split at added
  · cases added
    exact apart.insert different
  · split at added
    · cases added
    · cases added
      exact apart.insert different

theorem close (apart : LotsApart ticker lots) {times : FillTimes} {other : Ticker} {qty : ℚ}
    {closingShort : Bool} :
    LotsApart ticker (matchLots times lots other qty closingShort true).2 := by
  intro key lot found
  obtain ⟨before, present, _⟩ := matchLots_price found
  exact apart key before present

theorem rewrite (apart : LotsApart ticker lots) (change : Ticker × OrderId → Lot → Lot) :
    LotsApart ticker (mapRows change lots) := by
  intro key lot found
  rw [lookup_mapRows, Option.map_eq_some_iff] at found
  obtain ⟨old, present, _⟩ := found
  exact apart key old present

theorem convert {into : Ticker} {sign ratio : ℚ} {matched : List MatchedLot} {converted : Lots}
    (apart : LotsApart ticker lots) (different : into ≠ ticker)
    (done : convertLots into sign ratio matched lots = .ok converted) :
    LotsApart ticker converted := by
  induction matched generalizing lots with
  | nil =>
    cases done
    exact apart
  | cons lot rest ih =>
    simp only [convertLots] at done
    split at done
    · cases done
    · rename_i grown added
      exact ih (apart.add different added) done

/-- A split of an instrument without lots leaves the book as it is. -/
theorem applySplit_eq {book : Book} (apart : LotsApart ticker book.lots) (ex : Int) (ratio : ℚ) :
    applySplit book ticker ex ratio = book := by
  have other : ∀ row ∈ book.lots.entries, row.1.1 ≠ ticker := fun row listed =>
    apart row.1 row.2 (lookup_of_mem listed)
  have lots : mapRows (splitLot ticker ex ratio) book.lots = book.lots := by
    refine mapRows_eq_self ?_
    intro row listed
    rw [splitLot, if_neg]
    exact fun same => other row listed same.1
  have none : oldQty book.lots ticker ex = 0 := by
    have zeros : oldQty book.lots ticker ex = total (fun _ _ => (0 : ℚ)) book.lots := by
      refine total_congr ?_
      intro row listed
      rw [if_neg]
      exact fun same => other row listed same.1
    rw [zeros]
    simp [total]
  unfold applySplit
  rw [lots, none]
  split
  · rw [if_neg (by simp)]
  · rfl

end LotsApart

/-- The event neither fills nor acquires an instrument. -/
def Event.Spares (ticker : Ticker) : Event → Prop
  | .fill _ row => row.ticker ≠ ticker
  | .settlement _ _ row => row.intoTicker ≠ some ticker
  | _ => True

/-- An event that spares an instrument brings no lot of it. -/
theorem replayEvent_apart {ticker : Ticker} {settings : LedgerSettings} {times : FillTimes}
    {book next : Book} {event : Event} (apart : LotsApart ticker book.lots)
    (spared : event.Spares ticker)
    (replayed : replayEvent settings times book event = .ok next) : LotsApart ticker next.lots := by
  obtain ⟨outcome, applied, rfl⟩ := map_ok.mp replayed
  cases event with
  | fill orderId row =>
    simp only [applyEvent] at applied
    split at applied
    · cases applied
    · rename_i done filled
      split at applied
      · cases applied
        rcases applyFill_cases filled with ⟨-, rfl⟩ | ⟨qty, lots, trades, closes, -, moved, rfl⟩
        · exact apart
        · unfold moveLots at moved
          split at moved
          · cases moved
            exact apart.close
          · split at moved
            · cases moved
            · rename_i opened
              cases moved
              exact apart.add spared opened
      · cases applied
  | split other ex ratio =>
    cases applied
    dsimp only
    rw [applySplit_lots]
    exact apart.rewrite _
  | settlement other effective row =>
    obtain ⟨-, ⟨-, same, -⟩ | ⟨-, into, ratio, lots, acquirer, -, converted, same, -⟩⟩ :=
      applySettlementEvent_cases applied
    · rw [same]
      exact apart.close
    · rw [same]
      refine LotsApart.convert apart.close ?_ converted
      intro taken
      exact spared (acquirer.trans (congrArg some taken))
  | dividend other ex row =>
    simp only [applyEvent] at applied
    split at applied
    · cases applied
    · cases applied
      exact apart
  | cash eventDate seq row =>
    cases applied
    exact apart

/-- The ledger never trades an instrument. -/
def LedgerTables.Spares (ledger : LedgerTables) (ticker : Ticker) : Prop :=
  (∀ row ∈ ledger.fills.entries, row.2.ticker ≠ ticker) ∧
    ∀ row ∈ ledger.settlements.entries, row.2.intoTicker ≠ some ticker

theorem LedgerTables.Spares.rows {ledger : LedgerTables} {ticker : Ticker}
    (spared : ledger.Spares ticker) : ∀ event ∈ ledger.rows, event.Spares ticker := by
  intro event listed
  simp only [LedgerTables.rows, List.mem_append, List.mem_map] at listed
  rcases listed with (((⟨row, -, rfl⟩ | ⟨row, -, rfl⟩) | ⟨row, member, rfl⟩) | ⟨row, -, rfl⟩) |
    ⟨row, member, rfl⟩
  · trivial
  · trivial
  · exact spared.2 row member
  · trivial
  · exact spared.1 row member

/-- One more split of an instrument that is never traded changes no replay. -/
theorem rebuildState_untouched (zone : Nyse.Zone) (settings : LedgerSettings)
    {ledger : LedgerTables} {splits : Table (Ticker × Int) SplitRatio} {key : Ticker × Int}
    (ratio : SplitRatio) (fresh : splits.lookup key = none) (spared : ledger.Spares key.1) :
    rebuildState zone settings { ledger with splits := splits.insert key ratio } none =
      rebuildState zone settings { ledger with splits := splits } none := by
  have rows : ({ ledger with splits := splits.insert key ratio } : LedgerTables).rows =
      .split key.1 key.2 ratio :: ({ ledger with splits := splits } : LedgerTables).rows := by
    simp only [LedgerTables.rows, AList.entries_insert_of_notMem (AList.lookup_eq_none.mp fresh),
      List.map_cons, List.cons_append]
  have listed : ({ ledger with splits := splits } : LedgerTables).Spares key.1 := spared
  unfold rebuildState events
  rw [rows]
  simp only [LedgerTables.untimed, Option.all_none, Bool.and_self, List.filter_true]
  cases ledger.fills.entries.find? fun row =>
      decide (settings.engine = .account) && row.2.fillTs.isNone with
  | some untimed => rfl
  | none =>
    refine foldlM_orderedInsert (fun book : Book => LotsApart key.1 book.lots) ?_ ?_ ?_
    · intro book apart
      exact congrArg Except.ok (apart.applySplit_eq key.2 ratio.value)
    · intro event member book next apart replayed
      refine replayEvent_apart apart (listed.rows event ?_) replayed
      exact (inOrder_perm zone settings.engine _).subset member
    · intro other lot found
      simp [Book.opening] at found

end TradingEngine.Ledger
