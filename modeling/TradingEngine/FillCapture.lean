import TradingEngine.SimulatorFills
import TradingEngine.Runs

/-!
# Capturing the fills of an account

Every turn that goes on has read a fill more, so the loop ends for any adapter, within one turn
more than the limit. Over the simulator a page is a stretch of the account's fills in the order
of their ids. A fill that is accepted is the only one of its order, so what comes after its
cursor is what stands behind it, and the pages together are all fills, each once.
-/

namespace TradingEngine.Broker

open KeyedTables Runs

section termination

variable {σ : Type*} {stream : FillStream σ} {pageSize maxFills : ℕ} {state later : σ}
  {reading next : Reading}

/-- A turn that goes on has read a fill more, and not too many. -/
theorem captureTurn_onward
    (turned : captureTurn stream pageSize maxFills state reading = .onward later next) :
    reading.fills.length < next.fills.length ∧ next.fills.length ≤ maxFills := by
  unfold captureTurn at turned
  split at turned
  · cases turned
  · split at turned
    · cases turned
    · cases turned
    · rename_i batch _ _
      dsimp only at turned
      split at turned
      · cases turned
      · rename_i within
        split at turned
        · cases turned
        · split at turned
          · cases turned
          · split at turned
            · cases turned
            · rename_i advanced
              cases turned
              push Not at advanced within
              have some := List.length_pos_of_ne_nil advanced.2.2
              rw [List.length_append] at within ⊢
              exact ⟨by omega, within⟩

/-- Enough fuel gives a result, and more fuel gives the same one. -/
theorem captureFuel_result {fuel : ℕ} (enough : maxFills - reading.fills.length < fuel) :
    ∃ result, ∀ more, fuel ≤ more →
      captureFuel stream pageSize maxFills more state reading = some result := by
  induction fuel generalizing state reading with
  | zero => omega
  | succ fuel ih =>
    cases turned : captureTurn stream pageSize maxFills state reading with
    | finished result =>
      refine ⟨result, fun more atLeast => ?_⟩
      obtain ⟨more, rfl⟩ := Nat.exists_eq_add_of_le' atLeast
      rw [← Nat.add_assoc, captureFuel, turned]
    | onward later next =>
      obtain ⟨grown, within⟩ := captureTurn_onward turned
      have fewer : maxFills - next.fills.length < fuel := by omega
      obtain ⟨result, settled⟩ : ∃ result, ∀ more, fuel ≤ more →
          captureFuel stream pageSize maxFills more later next = some result :=
        ih fewer
      refine ⟨result, fun more atLeast => ?_⟩
      obtain ⟨more, rfl⟩ := Nat.exists_eq_add_of_le' atLeast
      rw [← Nat.add_assoc, captureFuel, turned]
      exact settled _ (by omega)

end termination

theorem toDigits_head {number : ℕ} (positive : 0 < number) :
    (Nat.toDigits 10 number).head? ≠ some '0' := by
  induction number using Nat.strong_induction_on with
  | _ number ih =>
    rcases Nat.lt_or_ge number 10 with small | large
    · rw [Nat.toDigits_of_lt_base small]
      interval_cases number <;> decide
    · rw [Nat.toDigits_of_base_le (by decide) large,
        List.head?_append_of_ne_nil _ Nat.toDigits_ne_nil]
      exact ih _ (by omega) (by omega)

variable {orderId : ℕ}

/-- An execution identifier names its order. -/
theorem simulatorId_executionIdText (positive : 0 < orderId)
    (safe : orderId ≤ MAX_SAFE_INTEGER) (label : String) :
    simulatorId (executionIdText orderId) EXECUTION_ID_PREFIX label = .ok orderId := by
  have digits : ∀ digit ∈ Nat.toDigits 10 orderId, digit.isDigit = true :=
    fun digit listed => Nat.isDigit_of_mem_toDigits (by decide) (by decide) listed
  have some : (Nat.toDigits 10 orderId).isEmpty = false := by
    rw [List.isEmpty_eq_false_iff]
    exact Nat.toDigits_ne_nil
  have all : (Nat.toDigits 10 orderId).all Char.isDigit = true := List.all_eq_true.mpr digits
  have head : ((Nat.toDigits 10 orderId).head? == Option.some '0') = false :=
    beq_eq_false_iff_ne.mpr (toDigits_head positive)
  have stem : EXECUTION_ID_PREFIX.isPrefixOf (executionIdText orderId) = true :=
    List.isPrefixOf_iff_prefix.mpr (List.prefix_append _ _)
  have raw : (executionIdText orderId).drop EXECUTION_ID_PREFIX.length =
      Nat.toDigits 10 orderId := List.drop_left
  simp only [simulatorId, raw, stem, some, all, head, Nat.ofDigitChars_ten_toDigits,
    Bool.not_true, Bool.or_false, Bool.false_eq_true, if_false, if_neg (not_lt.mpr safe)]

variable {simulator : Simulator} {accountId : Identifier}

theorem storedId_ok {value : Option ℤ} {label : String}
    (stored : storedId value label = .ok orderId) :
    value = some (orderId : ℤ) ∧ 0 < orderId ∧ orderId ≤ MAX_SAFE_INTEGER := by
  cases value with
  | none => cases stored
  | some id =>
    simp only [storedId] at stored
    split at stored
    · cases stored
    · rename_i bounds
      push Not at bounds
      obtain rfl := Except.ok.inj stored
      have same : ((id.toNat : ℕ) : ℤ) = id := Int.toNat_of_nonneg bounds.1.le
      exact ⟨by rw [same], by omega, by omega⟩

/-- An accepted fill is the only one of an order whose id its execution identifier names. -/
theorem fill_spec {row : SimFill} {fill : BrokerFill}
    (accepted : simulator.fill accountId row = .ok fill) :
    ∃ orderId : ℕ, row.orderId = some (orderId : ℤ) ∧ 0 < orderId ∧ orderId ≤ MAX_SAFE_INTEGER ∧
      simulator.fillCount orderId = 1 ∧
      fill.executionId.text.toList = executionIdText orderId := by
  obtain ⟨orderId, stored, accepted⟩ := bind_ok.mp accepted
  obtain ⟨_, ordered, accepted⟩ := bind_ok.mp accepted
  obtain ⟨symbol, -, accepted⟩ := bind_ok.mp accepted
  obtain ⟨side, -, accepted⟩ := bind_ok.mp accepted
  obtain ⟨cost, -, accepted⟩ := bind_ok.mp accepted
  obtain ⟨quantity, -, accepted⟩ := bind_ok.mp accepted
  obtain ⟨occurredOn, -, accepted⟩ := bind_ok.mp accepted
  obtain ⟨reference, -, accepted⟩ := bind_ok.mp accepted
  obtain ⟨price, -, accepted⟩ := bind_ok.mp accepted
  obtain ⟨executionId, named, accepted⟩ := bind_ok.mp accepted
  obtain ⟨brokerOrderId, -, accepted⟩ := bind_ok.mp accepted
  obtain ⟨idempotencyKey, -, accepted⟩ := bind_ok.mp accepted
  obtain rfl := Except.ok.inj accepted
  obtain ⟨same, positive, safe⟩ := storedId_ok stored
  refine ⟨orderId, same, positive, safe, ?_, ?_⟩
  · unfold Simulator.requireOrder at ordered
    split at ordered
    · rename_i agrees
      simp only [Simulator.matchesOrder, Bool.and_eq_true, beq_iff_eq] at agrees
      exact agrees.1.1
    · cases ordered
  · rw [requireIdentifier_ok named, String.toList_ofList]

theorem cursorId_fill {row : SimFill} {fill : BrokerFill}
    (accepted : simulator.fill accountId row = .ok fill) :
    ∃ orderId : ℕ, row.orderId = some (orderId : ℤ) ∧ 0 < orderId ∧
      simulator.fillCount orderId = 1 ∧ cursorId (some fill.executionId) = .ok orderId := by
  obtain ⟨orderId, same, positive, safe, single, named⟩ := fill_spec accepted
  refine ⟨orderId, same, positive, single, ?_⟩
  rw [cursorId, named]
  exact simulatorId_executionIdText positive safe _

theorem rowsAfter_sorted (simulator : Simulator) (accountId : Identifier) (orderId : ℕ) :
    (simulator.rowsAfter accountId orderId).Pairwise
      fun first second => first.orderId.getD 0 ≤ second.orderId.getD 0 := by
  have total : Std.Total fun first second : SimFill =>
      first.orderId.getD 0 ≤ second.orderId.getD 0 := ⟨fun first second => le_total _ _⟩
  have trans : IsTrans SimFill fun first second =>
      first.orderId.getD 0 ≤ second.orderId.getD 0 := ⟨fun _ _ _ => le_trans⟩
  exact (List.pairwise_insertionSort _ simulator.fills).filter _

theorem mem_rowsAfter {row : SimFill} :
    row ∈ simulator.rowsAfter accountId orderId ↔
      row ∈ simulator.fills ∧ row.after accountId orderId = true := by
  rw [Simulator.rowsAfter, List.mem_filter, List.mem_insertionSort]

theorem after_iff {row : SimFill} {bound : ℕ} :
    row.after accountId bound = true ↔ row.portfolioId = some accountId.text ∧
      ∃ id, row.orderId = some id ∧ (bound : ℤ) < id := by
  simp [SimFill.after, Option.any_eq_true]

theorem rowsAfter_filter {earlier later : ℕ} (ordered : earlier ≤ later) :
    (simulator.rowsAfter accountId earlier).filter (fun row => row.after accountId later) =
      simulator.rowsAfter accountId later := by
  rw [Simulator.rowsAfter, List.filter_filter, Simulator.rowsAfter]
  apply List.filter_congr
  intro row _
  by_cases behind : row.after accountId later = true
  · obtain ⟨owned, id, same, above⟩ := after_iff.mp behind
    have before : row.after accountId earlier = true := after_iff.mpr ⟨owned, id, same, by omega⟩
    rw [behind, before]
    rfl
  · rw [Bool.not_eq_true] at behind
    rw [behind, Bool.false_and]

/-- No more rows name an order than the table holds. -/
theorem rowsAfter_count (bound orderId : ℕ) :
    ((simulator.rowsAfter accountId bound).filter
        fun row => row.orderId = some (orderId : ℤ)).length ≤ simulator.fillCount orderId := by
  have kept : ((simulator.rowsAfter accountId bound).filter
      fun row => row.orderId = some (orderId : ℤ)).Sublist
      ((simulator.fills.insertionSort fun first second =>
        first.orderId.getD 0 ≤ second.orderId.getD 0).filter
        fun row => row.orderId = some (orderId : ℤ)) :=
    List.filter_sublist.filter _
  have sorted := (List.perm_insertionSort (fun first second : SimFill =>
    first.orderId.getD 0 ≤ second.orderId.getD 0) simulator.fills).filter
      fun row => row.orderId = some (orderId : ℤ)
  exact kept.length_le.trans sorted.length_eq.le

/-- In a stretch of rows that ends with the only fill of its order, what comes after that order
stands behind the stretch. -/
theorem rowsAfter_drop {bound : ℕ} {page behind : List SimFill} {last : SimFill}
    (rows : simulator.rowsAfter accountId bound = page ++ [last] ++ behind)
    (named : last.orderId = some (orderId : ℤ)) (single : simulator.fillCount orderId = 1) :
    bound < orderId ∧ simulator.rowsAfter accountId orderId = behind := by
  have sorted := rowsAfter_sorted simulator accountId bound
  have counted : ((simulator.rowsAfter accountId bound).filter
      fun row => row.orderId = some (orderId : ℤ)).length ≤ simulator.fillCount orderId :=
    rowsAfter_count bound orderId
  have inside : ∀ row ∈ page ++ [last] ++ behind, row.after accountId bound = true :=
    fun row listed => (mem_rowsAfter.mp (rows ▸ listed)).2
  rw [rows] at sorted counted
  obtain ⟨front, -, across⟩ := List.pairwise_append.mp sorted
  have above : bound < orderId := by
    obtain ⟨-, id, same, below⟩ := after_iff.mp (inside last (by simp))
    rw [named] at same
    obtain rfl := Option.some.inj same
    omega
  refine ⟨above, ?_⟩
  rw [← rowsAfter_filter above.le, rows, List.filter_append]
  have gone : (page ++ [last]).filter (fun row => row.after accountId orderId) = [] := by
    rw [List.filter_eq_nil_iff]
    intro row listed later
    obtain ⟨-, id, same, beyond⟩ := after_iff.mp later
    have atMost : row.orderId.getD 0 ≤ last.orderId.getD 0 := by
      rcases List.mem_append.mp listed with before | here
      · exact (List.pairwise_append.mp front).2.2 row before last (List.mem_singleton_self _)
      · rw [List.mem_singleton.mp here]
    rw [same, named] at atMost
    exact absurd beyond (not_lt.mpr atMost)
  have kept : behind.filter (fun row => row.after accountId orderId) = behind := by
    rw [List.filter_eq_self]
    intro row listed
    obtain ⟨owned, id, same, -⟩ := after_iff.mp (inside row (by simp [listed]))
    have atLeast : last.orderId.getD 0 ≤ row.orderId.getD 0 :=
      across last (by simp) row listed
    rw [same, named] at atLeast
    refine after_iff.mpr ⟨owned, id, same, lt_of_le_of_ne atLeast ?_⟩
    rintro rfl
    have twice : 2 ≤ ((page ++ [last] ++ behind).filter
        fun row => row.orderId = some (orderId : ℤ)).length := by
      rw [List.filter_append, List.length_append]
      have first : last ∈ (page ++ [last]).filter fun row => row.orderId = some (orderId : ℤ) :=
        List.mem_filter.mpr ⟨by simp, by simpa using named⟩
      have second : row ∈ behind.filter fun row => row.orderId = some (orderId : ℤ) :=
        List.mem_filter.mpr ⟨listed, by simpa using same⟩
      have one := List.length_pos_of_mem first
      have other := List.length_pos_of_mem second
      omega
    omega
  rw [gone, kept, List.nil_append]

theorem mapM_length {α β ε : Type} {compute : α → Except ε β} {elements : List α}
    {values : List β} (computed : elements.mapM compute = .ok values) :
    elements.length = values.length := by
  induction elements generalizing values with
  | nil =>
    cases computed
    rfl
  | cons first rest ih =>
    rw [List.mapM_cons] at computed
    obtain ⟨value, -, computed⟩ := bind_ok.mp computed
    obtain ⟨later, others, computed⟩ := bind_ok.mp computed
    cases computed
    rw [List.length_cons, List.length_cons, ih others]

theorem makeBatch_ok {fills : List BrokerFill} {nextCursor : Option Identifier} {truncated : Bool}
    (bounded : fills.length ≤ MAX_FILL_BATCH) (continues : truncated = true → fills ≠ []) :
    makeBatch fills nextCursor truncated =
      .ok ⟨fills, nextCursor, truncated, bounded, continues⟩ := by
  rw [makeBatch, dif_pos bounded, dif_pos continues]

/-- The accepted fills of a page, and the cursor that it leaves. -/
structure PageOf (simulator : Simulator) (accountId : Identifier) (after : Option Identifier)
    (limit : ℕ) (rows : List SimFill) (batch : FillBatch) : Prop where
  fills : (rows.take limit).mapM (simulator.fill accountId) = .ok batch.fills
  truncated : batch.truncated = true ↔ limit < rows.length
  cursor : batch.nextCursor = nextCursor batch.fills after

/-- A page of an account that is there holds the first rows after its cursor, or raises what one
of them raises. -/
theorem streamFills_cases {after : Option Identifier} {limit : ℕ}
    (present : accountId.text ∈ simulator.portfolios) (some : 1 ≤ limit)
    (few : limit ≤ MAX_FILL_BATCH) (cursor : cursorId after = .ok orderId) :
    (∃ error, simulator.streamFills accountId after limit = .error error ∧
        ((simulator.rowsAfter accountId orderId).take limit).mapM (simulator.fill accountId) =
          .error error) ∨
      ∃ batch, simulator.streamFills accountId after limit = .ok batch ∧
        PageOf simulator accountId after limit (simulator.rowsAfter accountId orderId) batch := by
  have account : simulator.requireAccount accountId = .ok () := if_pos present
  have limited : requireLimit limit = .ok () := if_pos ⟨some, few⟩
  generalize rowsEq : simulator.rowsAfter accountId orderId = rows
  have visible : (rows.take (limit + 1)).take limit = rows.take limit := by
    rw [List.take_take, min_eq_left (Nat.le_succ limit)]
  have more : limit < (rows.take (limit + 1)).length ↔ limit < rows.length := by
    rw [List.length_take]
    omega
  cases read : (rows.take limit).mapM (simulator.fill accountId) with
  | error error =>
    refine .inl ⟨error, ?_, rfl⟩
    simp only [Simulator.streamFills, account, limited, cursor, rowsEq, visible, read, bind,
      Except.bind]
  | ok fills =>
    have length : fills.length = min limit rows.length := by
      rw [← mapM_length read, List.length_take]
    have bounded : fills.length ≤ MAX_FILL_BATCH := by omega
    have continues : decide (limit < (rows.take (limit + 1)).length) = true → fills ≠ [] := by
      intro longer
      have beyond := more.mp (decide_eq_true_iff.mp longer)
      exact List.ne_nil_of_length_pos (by omega)
    refine .inr ⟨⟨fills, nextCursor fills after, _, bounded, continues⟩, ?_, ⟨read, ?_, rfl⟩⟩
    · simp only [Simulator.streamFills, account, limited, cursor, rowsEq, visible, read, bind,
        Except.bind]
      exact makeBatch_ok bounded continues
    · rw [decide_eq_true_iff, more]

theorem mapM_append_ok {α β ε : Type} {compute : α → Except ε β} {front behind : List α}
    {values : List β} :
    (front ++ behind).mapM compute = .ok values ↔
      ∃ first second, front.mapM compute = .ok first ∧ behind.mapM compute = .ok second ∧
        values = first ++ second := by
  rw [List.mapM_append]
  constructor
  · intro computed
    obtain ⟨first, one, computed⟩ := bind_ok.mp computed
    obtain ⟨second, other, computed⟩ := bind_ok.mp computed
    exact ⟨first, second, one, other, (Except.ok.inj computed).symm⟩
  · rintro ⟨first, second, one, other, rfl⟩
    rw [one, other]
    rfl

/-- A reading has seen cursors of orders up to a bound, and its own cursor names the bound. -/
structure At (reading : Reading) (orderId : ℕ) : Prop where
  cursor : cursorId reading.cursor = .ok orderId
  seen : ∀ cursor ∈ reading.seenCursors, ∃ earlier ≤ orderId, cursorId (some cursor) = .ok earlier

/-- What a full page leads to: the cursor of its last fill, with the remaining rows behind. -/
theorem page_onward {reading : Reading} {limit : ℕ} {batch : FillBatch}
    (reached : At reading orderId) (some : 1 ≤ limit)
    (longer : limit < (simulator.rowsAfter accountId orderId).length)
    (page : PageOf simulator accountId reading.cursor limit
      (simulator.rowsAfter accountId orderId) batch) :
    ∃ next later, batch.nextCursor = Option.some next ∧
      At ⟨reading.fills ++ batch.fills, Option.some next, next :: reading.seenCursors⟩ later ∧
      orderId < later ∧ reading.cursor ≠ Option.some next ∧ next ∉ reading.seenCursors ∧
      simulator.rowsAfter accountId later =
        (simulator.rowsAfter accountId orderId).drop limit := by
  obtain ⟨init, last, front⟩ : ∃ init last,
      (simulator.rowsAfter accountId orderId).take limit = init ++ [last] := by
    rcases List.eq_nil_or_concat' ((simulator.rowsAfter accountId orderId).take limit) with
      none | split
    · have empty := congrArg List.length none
      rw [List.length_take, List.length_nil] at empty
      omega
    · exact split
  have read := page.fills
  rw [front] at read
  obtain ⟨first, second, -, final, fills⟩ := mapM_append_ok.mp read
  obtain ⟨fill, accepted, returned⟩ := bind_ok.mp final
  obtain rfl : [fill] = second := Except.ok.inj returned
  obtain ⟨later, named, positive, single, cursor⟩ := cursorId_fill accepted
  have rows : simulator.rowsAfter accountId orderId =
      init ++ [last] ++ (simulator.rowsAfter accountId orderId).drop limit := by
    rw [← front, List.take_append_drop]
  obtain ⟨onward, behind⟩ := rowsAfter_drop rows named single
  have next : batch.nextCursor = Option.some fill.executionId := by
    rw [page.cursor, nextCursor, fills, List.getLast?_append]
    rfl
  have fresh : ∀ earlier ≤ orderId, cursorId (Option.some fill.executionId) ≠ .ok earlier := by
    intro earlier atMost same
    rw [cursor] at same
    have equal := Except.ok.inj same
    omega
  refine ⟨fill.executionId, later, next, ⟨cursor, ?_⟩, onward, ?_, ?_, behind⟩
  · intro other listed
    rcases List.mem_cons.mp listed with rfl | before
    · exact ⟨later, le_rfl, cursor⟩
    · obtain ⟨earlier, atMost, known⟩ := reached.seen other before
      exact ⟨earlier, by omega, known⟩
  · intro same
    exact fresh orderId le_rfl (same ▸ reached.cursor)
  · intro listed
    obtain ⟨earlier, atMost, known⟩ := reached.seen _ listed
    exact fresh earlier atMost known

/-- One turn over the simulator: it raises what a row raises, returns the last page, or goes on
behind a full one. -/
theorem captureTurn_simulator {pageSize maxFills : ℕ} {reading : Reading}
    (present : accountId.text ∈ simulator.portfolios) (some : 1 ≤ pageSize)
    (few : pageSize ≤ MAX_FILL_BATCH) (reached : At reading orderId)
    (room : reading.fills.length < maxFills) :
    (∃ error, captureTurn (simulator.stream accountId) pageSize maxFills () reading =
        .finished (.error error) ∧
      ∀ values, (simulator.rowsAfter accountId orderId).mapM (simulator.fill accountId) ≠
        .ok values) ∨
    (∃ more, captureTurn (simulator.stream accountId) pageSize maxFills () reading =
        .finished (.ok (reading.fills ++ more)) ∧
      (simulator.rowsAfter accountId orderId).mapM (simulator.fill accountId) = .ok more ∧
      reading.fills.length + more.length ≤ maxFills) ∨
    ∃ page next later limit, captureTurn (simulator.stream accountId) pageSize maxFills ()
        reading = .onward () ⟨reading.fills ++ page, Option.some next,
          next :: reading.seenCursors⟩ ∧
      At ⟨reading.fills ++ page, Option.some next, next :: reading.seenCursors⟩ later ∧
      ((simulator.rowsAfter accountId orderId).take limit).mapM (simulator.fill accountId) =
        .ok page ∧
      simulator.rowsAfter accountId later =
        (simulator.rowsAfter accountId orderId).drop limit ∧
      limit < (simulator.rowsAfter accountId orderId).length := by
  obtain ⟨limit, limitEq⟩ : ∃ limit, limit = min pageSize (maxFills - reading.fills.length) :=
    ⟨_, rfl⟩
  have atLeast : 1 ≤ limit := by omega
  obtain ⟨error, streamed, failed⟩ | ⟨batch, streamed, page⟩ :=
    streamFills_cases present atLeast (by omega) reached.cursor
  · refine .inl ⟨error, ?_, ?_⟩
    · simp only [captureTurn, if_neg (not_le.mpr room), Simulator.stream, ← limitEq, streamed,
        Except.map]
    · intro values all
      rw [← List.take_append_drop limit (simulator.rowsAfter accountId orderId)] at all
      obtain ⟨first, _, one, -, -⟩ := mapM_append_ok.mp all
      rw [failed] at one
      cases one
  · have length := mapM_length page.fills
    rw [List.length_take] at length
    have within : ¬maxFills < (reading.fills ++ batch.fills).length := by
      rw [List.length_append]
      omega
    by_cases longer : limit < (simulator.rowsAfter accountId orderId).length
    · obtain ⟨next, later, cursor, at', onward, apart, fresh, behind⟩ :=
        page_onward reached atLeast longer page
      have some : batch.fills ≠ [] := List.ne_nil_of_length_pos (by omega)
      have advanced : ¬(reading.cursor = Option.some next ∨ next ∈ reading.seenCursors ∨
          batch.fills = []) := by
        rintro (same | seen | none)
        · exact apart same
        · exact fresh seen
        · exact some none
      refine .inr (.inr ⟨batch.fills, next, later, limit, ?_, at', page.fills, behind, longer⟩)
      have truncated := page.truncated.mpr longer
      simp only [captureTurn, if_neg (not_le.mpr room), Simulator.stream, ← limitEq, streamed,
        Except.map, if_neg within, truncated, Bool.true_eq_false, if_false, cursor,
        if_neg advanced]
    · have last : batch.truncated = false :=
        Bool.eq_false_iff.mpr fun more => longer (page.truncated.mp more)
      refine .inr (.inl ⟨batch.fills, ?_, ?_, by omega⟩)
      · simp only [captureTurn, if_neg (not_le.mpr room), Simulator.stream, ← limitEq, streamed,
          Except.map, if_neg within, last, if_true]
      · have all := page.fills
        rwa [List.take_of_length_le (not_lt.mp longer)] at all

/-- What a capture that starts at a cursor returns: what it has, and the fills of all rows
behind the cursor, when they are accepted and not too many. Induction on the fuel. -/
theorem captureFuel_simulator {pageSize maxFills fuel : ℕ} {reading : Reading}
    (present : accountId.text ∈ simulator.portfolios) (some : 1 ≤ pageSize)
    (few : pageSize ≤ MAX_FILL_BATCH) (reached : At reading orderId)
    (unfinished : reading.fills.length < maxFills ∨
      simulator.rowsAfter accountId orderId ≠ [])
    {result : Except BrokerError (List BrokerFill)}
    (captured : captureFuel (simulator.stream accountId) pageSize maxFills fuel () reading =
      Option.some result) (fills : List BrokerFill) :
    result = .ok fills ↔ ∃ more,
      (simulator.rowsAfter accountId orderId).mapM (simulator.fill accountId) = .ok more ∧
        reading.fills.length + more.length ≤ maxFills ∧ fills = reading.fills ++ more := by
  induction fuel generalizing reading orderId with
  | zero => cases captured
  | succ fuel ih =>
    rw [captureFuel] at captured
    by_cases room : reading.fills.length < maxFills
    · obtain ⟨error, turned, failed⟩ | ⟨more, turned, read, within⟩ |
        ⟨page, next, later, limit, turned, at', read, behind, longer⟩ :=
        captureTurn_simulator present some few reached room
      · rw [turned] at captured
        obtain rfl := Option.some.inj captured
        refine ⟨nofun, ?_⟩
        rintro ⟨more, all, -⟩
        exact absurd all (failed more)
      · rw [turned] at captured
        obtain rfl := Option.some.inj captured
        constructor
        · intro same
          exact ⟨more, read, within, (Except.ok.inj same).symm⟩
        · rintro ⟨other, all, -, rfl⟩
          rw [read] at all
          rw [Except.ok.inj all]
      · rw [turned] at captured
        have rest : simulator.rowsAfter accountId later ≠ [] := by
          rw [behind]
          exact List.ne_nil_of_length_pos (by rw [List.length_drop]; omega)
        rw [ih at' (.inr rest) captured, behind]
        conv_rhs => rw [← List.take_append_drop limit (simulator.rowsAfter accountId orderId)]
        constructor
        · rintro ⟨more, others, within, rfl⟩
          refine ⟨page ++ more, mapM_append_ok.mpr ⟨page, more, read, others, rfl⟩, ?_, ?_⟩
          · simp only [List.length_append] at within ⊢
            omega
          · rw [List.append_assoc]
        · rintro ⟨all, computed, within, rfl⟩
          obtain ⟨first, second, one, other, rfl⟩ := mapM_append_ok.mp computed
          rw [read] at one
          obtain rfl := Except.ok.inj one
          refine ⟨second, other, ?_, by rw [List.append_assoc]⟩
          simp only [List.length_append] at within ⊢
          omega
    · have full : captureTurn (simulator.stream accountId) pageSize maxFills () reading =
          .finished (.error (.stateError "adapter fill history exceeds reconciliation limit")) :=
        if_pos (not_lt.mp room)
      rw [full] at captured
      obtain rfl := Option.some.inj captured
      refine ⟨nofun, ?_⟩
      rintro ⟨more, all, within, -⟩
      have left := unfinished.resolve_left room
      have length := mapM_length all
      have positive := List.length_pos_of_ne_nil left
      omega

/-- Sorted rows of which no two name one order are strictly ascending. -/
theorem ascending_of_single {rows : List SimFill}
    (sorted : rows.Pairwise fun first second => first.orderId.getD 0 ≤ second.orderId.getD 0)
    (single : ∀ row ∈ rows, ∃ orderId : ℕ, row.orderId = some (orderId : ℤ) ∧
      (rows.filter fun other => other.orderId = some (orderId : ℤ)).length ≤ 1) :
    rows.Pairwise fun first second => first.orderId.getD 0 < second.orderId.getD 0 := by
  induction rows with
  | nil => exact List.Pairwise.nil
  | cons row rest ih =>
    obtain ⟨least, sorted⟩ := List.pairwise_cons.mp sorted
    refine List.pairwise_cons.mpr ⟨fun other listed => ?_, ih sorted ?_⟩
    · obtain ⟨orderId, named, once⟩ := single other (List.mem_cons_of_mem _ listed)
      refine lt_of_le_of_ne (least other listed) fun same => ?_
      obtain ⟨rowId, rowNamed, -⟩ := single row List.mem_cons_self
      have equal : rowId = orderId := by simpa [rowNamed, named] using same
      have later : other ∈ rest.filter fun other => other.orderId = some (orderId : ℤ) :=
        List.mem_filter.mpr ⟨listed, by simpa using named⟩
      have positive := List.length_pos_of_mem later
      rw [List.filter_cons_of_pos (by simpa [equal] using rowNamed), List.length_cons] at once
      omega
    · intro other listed
      obtain ⟨orderId, named, once⟩ := single other (List.mem_cons_of_mem _ listed)
      exact ⟨orderId, named, ((List.sublist_cons_self row rest).filter _).length_le.trans once⟩

/-- The stored fills of an account that have a positive order id, by that id. -/
def Simulator.recorded (simulator : Simulator) (accountId : Identifier) : List SimFill :=
  simulator.rowsAfter accountId 0

/-- What a capture over the simulator returns. -/
structure Complete (simulator : Simulator) (accountId : Identifier) (pageSize maxFills fuel : ℕ) :
    Prop where
  rows : (simulator.recorded accountId).Perm
    (simulator.fills.filter fun row => row.after accountId 0)
  ascending : ∀ fills, (simulator.recorded accountId).mapM (simulator.fill accountId) = .ok fills →
    (simulator.recorded accountId).Pairwise fun first second =>
      first.orderId.getD 0 < second.orderId.getD 0
  captured : ∀ fills, (simulator.recorded accountId).mapM (simulator.fill accountId) = .ok fills →
    fills.length ≤ maxFills →
    captureFuel (simulator.stream accountId) pageSize maxFills fuel () ⟨[], none, []⟩ =
      some (.ok fills)
  refused : (∀ fills, (simulator.recorded accountId).mapM (simulator.fill accountId) = .ok fills →
    maxFills < fills.length) →
    ∃ error, captureFuel (simulator.stream accountId) pageSize maxFills fuel () ⟨[], none, []⟩ =
      some (.error error)

/-- A capture ends over every adapter. Over the simulator it returns the stored fills in the
order of their ids, each once, when all are accepted and not too many, and raises otherwise. -/
theorem capture_complete :
    (∀ (σ : Type) (stream : FillStream σ) (state : σ) (pageSize maxFills : ℕ),
      ∃ result, ∀ fuel, maxFills < fuel →
        captureFuel stream pageSize maxFills fuel state ⟨[], none, []⟩ = some result) ∧
    ∀ (simulator : Simulator) (accountId : Identifier) (pageSize maxFills fuel : ℕ),
      accountId.text ∈ simulator.portfolios → 1 ≤ pageSize → pageSize ≤ MAX_FILL_BATCH →
      1 ≤ maxFills → maxFills < fuel → Complete simulator accountId pageSize maxFills fuel := by
  have ends : ∀ (σ : Type) (stream : FillStream σ) (state : σ) (pageSize maxFills : ℕ),
      ∃ result, ∀ fuel, maxFills < fuel →
        captureFuel stream pageSize maxFills fuel state ⟨[], none, []⟩ = some result := by
    intro σ stream state pageSize maxFills
    have enough : maxFills - (⟨[], none, []⟩ : Reading).fills.length < maxFills + 1 := by simp
    exact captureFuel_result enough
  refine ⟨ends, fun simulator accountId pageSize maxFills fuel present some few most enough => ?_⟩
  obtain ⟨result, settled⟩ := ends Unit (simulator.stream accountId) () pageSize maxFills
  have captured := settled fuel enough
  have start : At ⟨[], none, []⟩ 0 := ⟨rfl, fun cursor listed => absurd listed List.not_mem_nil⟩
  have returns := captureFuel_simulator present some few start (.inl most) captured
  refine ⟨(List.perm_insertionSort _ _).filter _, fun fills read => ?_, fun fills read within => ?_,
    fun excess => ?_⟩
  · refine ascending_of_single (rowsAfter_sorted simulator accountId 0) fun row listed => ?_
    obtain ⟨fill, -, accepted⟩ := mapM_value read row listed
    obtain ⟨orderId, named, -, single, -⟩ := cursorId_fill accepted
    exact ⟨orderId, named, (rowsAfter_count 0 orderId).trans single.le⟩
  · rw [captured, (returns fills).mpr ⟨fills, read, by simpa using within, rfl⟩]
  · cases result with
    | error error => exact ⟨error, captured⟩
    | ok fills =>
      obtain ⟨more, read, within, -⟩ := (returns fills).mp rfl
      have beyond := excess more read
      simp only [List.length_nil, zero_add] at within
      omega

section stored

def sampleAccount : Identifier := ⟨"p", by decide⟩

/-- One fill of one order. -/
def sampleSimulator (orderId : ℤ) (status : String) : Simulator :=
  { portfolios := ["p"]
    fills := [⟨some orderId, some "p", some "AAA", some "buy", some 2, some 0, some 10, some 10,
      some 0⟩]
    orders := (∅ : Table ℤ SimOrder).insert orderId
      ⟨some "p", some "AAA", some "buy", some status⟩
    orderKeys := none }

theorem sample_complete : Complete (sampleSimulator 7 "filled") sampleAccount 2 3 4 :=
  capture_complete.2 _ _ 2 3 4 (by decide) (by decide) (by decide) (by decide) (by decide)

def Simulator.owned (simulator : Simulator) (accountId : Identifier) : List SimFill :=
  simulator.fills.filter fun row => row.portfolioId = some accountId.text

/-- A stored fill of a cancelled order is not returned, and one without a positive order id is
passed over where it should raise. -/
theorem stored_uncaptured :
    (¬∀ (simulator : Simulator) (accountId : Identifier) (maxFills : ℕ),
      accountId.text ∈ simulator.portfolios → 1 ≤ maxFills →
      (simulator.owned accountId).length ≤ maxFills →
      ∃ fills, captureFuel (simulator.stream accountId) MAX_FILL_BATCH maxFills (maxFills + 1) ()
        ⟨[], none, []⟩ = some (.ok fills) ∧ fills.length = (simulator.owned accountId).length) ∧
    ¬∀ (simulator : Simulator) (accountId : Identifier) (maxFills : ℕ),
      accountId.text ∈ simulator.portfolios → 1 ≤ maxFills →
      (∃ row ∈ simulator.owned accountId, ∀ fill, simulator.fill accountId row ≠ .ok fill) →
      ∃ error, captureFuel (simulator.stream accountId) MAX_FILL_BATCH maxFills (maxFills + 1) ()
        ⟨[], none, []⟩ = some (.error error) := by
  constructor
  · intro returns
    obtain ⟨fills, captured, -⟩ := returns (sampleSimulator 7 "cancelled") sampleAccount 10
      (by decide) (by decide) (by decide)
    have raised : captureFuel ((sampleSimulator 7 "cancelled").stream sampleAccount)
        MAX_FILL_BATCH 10 11 () ⟨[], none, []⟩ = some (.error (.stateError
          "stored fill does not match its simulator order")) := by
      decide +kernel
    rw [raised] at captured
    cases captured
  · intro raises
    obtain ⟨error, captured⟩ := raises (sampleSimulator 0 "filled") sampleAccount 10
      (by decide) (by decide) ⟨_, List.mem_singleton_self _, nofun⟩
    have passed : captureFuel ((sampleSimulator 0 "filled").stream sampleAccount)
        MAX_FILL_BATCH 10 11 () ⟨[], none, []⟩ = some (.ok []) := by
      decide +kernel
    rw [passed] at captured
    cases captured

end stored

end TradingEngine.Broker
