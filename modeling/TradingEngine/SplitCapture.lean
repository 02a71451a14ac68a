import TradingEngine.SafeFolds

/-!
# Which splits reach the holder

Before its first day a fold admits the splits that are known by then, and applies
each one on the session of its ex-date. It looks only at instruments that the
account ever ordered or traded. Shares that came out of a stock conversion are in
neither table, so a split of such a holding is never admitted.
-/

namespace TradingEngine.Accounts

open KeyedTables OrderTypes Nyse Ledger Costs Fills Runs

variable {zone : Zone}

/-- A split that the market knows at the clock. -/
structure Admitted (world : World zone) (ticker : Ticker) (ex : Int) (action : CorporateAction) :
    Prop where
  listed : world.market.splits.lookup (ticker, ex) = some action
  positive : 0 < action.value
  known : action.known world.now = true

variable {world : World zone} {account : Account}

/-- What the capture records: the rows that were there, and every split among the actions
that is known, positive, of the window and of an instrument the account touched. -/
theorem captureSplits_lookup {through : Int}
    (key : Ticker × Int) :
    ((captureSplits world account through).ledger.splits.lookup key).isSome = true ↔
      (account.ledger.splits.lookup key).isSome = true ∨
        ∃ action ∈ world.market.splits.entries, action.1 = key ∧ 0 < action.2.value ∧
          action.1.2 ≤ through ∧ action.2.known world.now = true ∧
          account.touched action.1.1 = true := by
  unfold captureSplits
  dsimp only
  generalize account.ledger.splits = recorded
  induction world.market.splits.entries generalizing recorded with
  | nil => simp
  | cons action rest ih =>
    rw [List.foldl_cons, ih]
    simp only [List.mem_cons, exists_eq_or_imp]
    by_cases positive : 0 < action.2.value
    · rw [dif_pos positive]
      split
      · rename_i taken
        obtain ⟨reached, known, touched, missing⟩ := taken
        by_cases same : key = action.1
        · subst same
          simp [positive, reached, known, touched]
        · rw [AList.lookup_insert_ne same]
          have other : action.1 ≠ key := fun equal => same equal.symm
          simp [other]
      · rename_i refused
        by_cases same : action.1 = key
        · subst same
          cases stored : recorded.lookup action.1 with
          | some ratio => simp
          | none =>
            have excluded : ¬ (action.1.2 ≤ through ∧ action.2.known world.now = true ∧
                account.touched action.1.1 = true) := by
              rintro ⟨reached, known, touched⟩
              exact refused ⟨reached, known, touched, stored⟩
            simp [excluded]
        · simp [same]
    · rw [dif_neg positive]
      simp [positive]

/-- A split is recorded after the capture when it was before, or when its instrument was
ever ordered or traded. -/
theorem captureSplits_recorded {through : Int}
    {ticker : Ticker} {ex : Int} {action : CorporateAction}
    (admitted : Admitted world ticker ex action) (reached : ex ≤ through) :
    ((captureSplits world account through).ledger.splits.lookup (ticker, ex)).isSome = true ↔
      account.touched ticker = true ∨
        (account.ledger.splits.lookup (ticker, ex)).isSome = true := by
  rw [captureSplits_lookup, or_comm]
  refine or_congr_left ?_
  constructor
  · rintro ⟨found, _, same, _, _, _, touched⟩
    rwa [same] at touched
  · intro touched
    exact ⟨⟨(ticker, ex), action⟩, mem_of_lookup admitted.listed, rfl, admitted.positive,
      reached, admitted.known, touched⟩

/-- No entry of a fold writes a split row. -/
theorem applyItem_splits {session : Session} {next : Account}
    {item : Item} (applied : applyItem world session account item = .ok next) :
    next.ledger.splits = account.ledger.splits := by
  cases executes : item.order with
  | none =>
    have same := applyItem_booksOnly executes applied
    unfold BooksOnly at same
    rw [same]
  | some order =>
    cases item with
    | execute row result =>
      obtain ⟨outcome, settled, rfl⟩ := map_ok.mp applied
      have penalised : ∀ state : Account, ∀ row,
          (recordPenalty world session state row).ledger.splits = state.ledger.splits := by
        intro state row
        unfold recordPenalty
        split <;> rfl
      cases settleOrder_settlement settled with
      | stopped => rfl
      | waited => rfl
      | unfilled => rfl
      | lapsed => rfl
      | refused => simp [Account.setState]
      | vanished =>
        rw [penalised]
        simp [Account.setState]
      | executed =>
        rw [penalised]
        simp [Account.setState, Execution.booked, recordFill]
    | _ => cases executes

/-- The split rows of a fold are those that it admitted before its first day. -/
theorem foldTurns_splits {opened : Account} {stop : Int}
    {plan : FoldPlan} (done : openFold world account stop = .ok (opened, plan)) :
    ∀ turn ∈ foldTurns world account stop, turn.begun.ledger.splits =
      (captureSplits world account plan.stop).ledger.splits := by
  intro turn member
  refine (foldTurns_invariant (fun state => state.ledger.splits =
    (captureSplits world account plan.stop).ledger.splits) ?_ ?_ ?_ turn member).1
  · intro opened' plan' done'
    obtain ⟨rfl, rfl⟩ := Prod.mk.inj (Except.ok.inj (done.symm.trans done'))
    obtain ⟨_, _, _, _, rfl, _⟩ := openFold_ok done
    rfl
  · intro turn _ next _ same applied
    exact (applyItem_splits applied).trans same
  · intro state day next same marked
    obtain ⟨row, prices, rfl⟩ := markAccount_ok marked
    exact same

theorem split_mem_rows {ledger : LedgerTables} {ticker : Ticker} {ex : Int} {ratio : SplitRatio} :
    Event.split ticker ex ratio ∈ ledger.rows ↔
      ledger.splits.lookup (ticker, ex) = some ratio := by
  unfold LedgerTables.rows
  simp only [List.mem_append, List.mem_map, reduceCtorEq, and_false, exists_false, or_false,
    Event.split.injEq]
  constructor
  · rintro ⟨⟨⟨name, day⟩, stored⟩, listed, rfl, rfl, rfl⟩
    exact lookup_of_mem listed
  · intro found
    exact ⟨⟨(ticker, ex), ratio⟩, mem_of_lookup found, rfl, rfl, rfl⟩

/-- A split that a turn of the fold applies to its book. -/
def SplitApplied (world : World zone) (turns : List Turn) (ticker : Ticker) (ex : Int) : Prop :=
  ∃ turn ∈ turns, ∃ ratio next, turn.session.day = ex ∧
    turn.item = .recorded (.split ticker ex ratio) ∧
    applyItem world turn.session turn.account turn.item = .ok next ∧
    next.book = applySplit turn.account.book ticker ex ratio.value

/-- A fold applies a split on a session that it folds exactly when the account ever ordered
or traded the instrument, or the split was recorded before. -/
theorem foldLoop_splitApplied {final : Account} {stop : Int}
    {ticker : Ticker} {ex : Int} {action : CorporateAction}
    (completed : foldLoop world account stop = .ok final)
    (admitted : Admitted world ticker ex action)
    (session : ∃ turn ∈ foldTurns world account stop, turn.session.day = ex) :
    SplitApplied world (foldTurns world account stop) ticker ex ↔
      account.touched ticker = true ∨
        (account.ledger.splits.lookup (ticker, ex)).isSome = true := by
  obtain ⟨opened, plan, done, _⟩ := foldLoop_ok completed
  obtain ⟨running, first, last⟩ : isSession ex = true ∧ plan.start ≤ ex ∧ ex ≤ plan.stop := by
    obtain ⟨turn, member, rfl⟩ := session
    exact foldTurns_day done member
  rw [← captureSplits_recorded admitted last]
  constructor
  · rintro ⟨turn, member, ratio, _, _, item, _⟩
    obtain ⟨day, sequence, _, listed, _, visited⟩ := mem_foldTurns member
    have inside := visitedM_mem _ visited
    unfold sessionItems at inside
    rw [item, List.mem_insertionSort] at inside
    simp only [List.mem_append, List.mem_map, List.mem_cons, List.not_mem_nil, or_false,
      reduceCtorEq, and_false, exists_false, Item.recorded.injEq, exists_eq_right] at inside
    have recorded := split_mem_rows.mp ((mem_events listed).mp (List.mem_of_mem_filter inside)).1
    rw [← foldTurns_splits done turn member, recorded]
    rfl
  · intro captured
    obtain ⟨ratio, recorded⟩ := Option.isSome_iff_exists.mp captured
    obtain ⟨begun, sequence, _, listed, turns⟩ :=
      foldTurns_covers completed done ⟨first, last⟩ running
    obtain ⟨_, accrual, _⟩ := turns .interest (by simp [sessionItems])
    have inside : Event.split ticker ex ratio ∈ sequence := by
      refine (mem_events listed).mpr ⟨split_mem_rows.mpr ?_, ?_⟩
      · exact (congrArg (AList.lookup (ticker, ex)) (foldTurns_splits done _ accrual)).trans recorded
      · simp [Event.within, Event.date, Event.stamp]
    obtain ⟨state, member, _⟩ := turns (.recorded (.split ticker ex ratio)) (by
      unfold sessionItems
      rw [List.mem_insertionSort]
      simp [replayed, inside])
    exact ⟨_, member, ratio, _, rfl, rfl, rfl, rfl⟩

/-- Close-outs and settlements add no fill, no split and no order. -/
theorem FoldCall.touched {operation : Operation zone}
    {stop : Int} {mutation : Account → Except AccountError Account}
    (call : FoldCall account operation world stop mutation) {changed : Account}
    (mutated : mutation account = .ok changed) (ticker : Ticker) :
    changed.touched ticker = account.touched ticker ∧
      changed.ledger.splits = account.ledger.splits := by
  obtain ⟨_, ledger, _, _⟩ := call.mutates mutated
  refine ⟨?_, by rw [ledger]⟩
  have orders : changed.orders.entries.any (fun row => row.2.ticker = ticker) =
      account.orders.entries.any fun row => row.2.ticker = ticker := by
    cases call with
    | settle world day =>
      refine foldlM_invariant (fun state : Account =>
        state.orders.entries.any (fun row => row.2.ticker = ticker) =
          account.orders.entries.any fun row => row.2.ticker = ticker) ?_ rfl mutated
      intro terms _ state after same done
      unfold closeOut at done
      split at done
      · obtain ⟨recorded, booked, done⟩ := bind_ok.mp done
        cases done
        rw [← same, ← recordSettlement_orders booked]
        unfold cancelSettled
        split
        · rfl
        · simp [mapRows, settleCancel, List.any_map, Function.comp_def]
      · cases done
        exact same
    | settlement world terms => rw [recordSettlement_orders mutated]
  unfold Account.touched
  rw [orders, ledger]

/-- In every fold, an admitted split of a folded session is captured and applied exactly
when the account ever ordered or traded the instrument, or the split was recorded before. -/
theorem splits_reach_traded_instruments {account folded : Account} {operation : Operation zone}
    {world : World zone} {stop : Int} {mutation : Account → Except AccountError Account}
    (call : FoldCall account operation world stop mutation)
    (done : foldAccount world account stop mutation = .ok folded)
    {ticker : Ticker} {ex : Int} {action : CorporateAction}
    (admitted : Admitted world ticker ex action)
    (session : ∃ turn ∈ mutatedTurns world account stop mutation, turn.session.day = ex) :
    SplitApplied world (mutatedTurns world account stop mutation) ticker ex ↔
      account.touched ticker = true ∨
        (account.ledger.splits.lookup (ticker, ex)).isSome = true := by
  obtain ⟨_, _, done⟩ := bind_ok.mp done
  obtain ⟨changed, mutated, done⟩ := bind_ok.mp done
  obtain ⟨looped, loop, _⟩ := bind_ok.mp done
  obtain ⟨touched, splits⟩ := call.touched mutated ticker
  unfold mutatedTurns at session ⊢
  simp only [mutated] at session ⊢
  rw [foldLoop_splitApplied loop admitted session, touched, splits]

/-- A steady world in which one name splits two for one and converts into another that
still trades. -/
def splittingWorld (name : Ticker) (ex day hours : Int) : World daylightTime :=
  { sampleWorld day hours with
    market := { (steadyMarket 10 ten_positive : Market daylightTime) with
      splits := tableOf [((name, ex), ⟨2, none⟩)]
      tradedSince := fun ticker _ => decide (ticker = "NEW") } }

/-- A holding bought on Tuesday that splits on Wednesday. -/
def boughtBeforeSplit : List (Operation daylightTime) :=
  [.submit (splittingWorld "SYM" 739770 739768 22) (sampleIntent "entry" "SYM" .buy 100 739768),
    .settle (splittingWorld "SYM" 739770 739769 22) 739769]

theorem split_reaches_bought_shares :
    SplitApplied (splittingWorld "SYM" 739770 739770 22)
      (mutatedTurns (splittingWorld "SYM" 739770 739770 22)
        (boughtBeforeSplit.foldl step sampleAccount) 739770
        (closeOutDelisted (splittingWorld "SYM" 739770 739770 22) 739770)) "SYM" 739770 := by
  obtain ⟨folded, done⟩ := exists_ok (show (foldAccount (splittingWorld "SYM" 739770 739770 22)
      (boughtBeforeSplit.foldl step sampleAccount) 739770
      (closeOutDelisted (splittingWorld "SYM" 739770 739770 22) 739770)).isOk = true by
    decide +kernel)
  refine (splits_reach_traded_instruments (.settle _ _) done
    (⟨rfl, by norm_num, rfl⟩ : Admitted _ _ _ ⟨2, none⟩) (by decide +kernel)).mpr (.inl ?_)
  decide +kernel

/-- A holding that a merger turns into another name on Wednesday. -/
def convertedBeforeSplit : List (Operation daylightTime) :=
  [.submit (splittingWorld "NEW" 739772 739768 22) (sampleIntent "entry" "SYM" .buy 100 739768),
    .settle (splittingWorld "NEW" 739772 739769 22) 739769,
    .settlement (splittingWorld "NEW" 739772 739770 22)
      ⟨"SYM", .stock, 739770, "merger terms", 0, some "NEW", some 1⟩]

/-- Whether an entry is a split of an instrument. -/
def Item.splits (ticker : Ticker) : Item → Bool
  | .recorded (.split name _ _) => decide (name = ticker)
  | _ => false

/-- The shares of a conversion are held on Friday morning, and Friday's split passes them
by. -/
theorem split_misses_converted_shares :
    ¬ ∀ (operations : List (Operation daylightTime)) (world : World daylightTime) (day : Int)
        (folded : Account) (ticker : Ticker) (ex : Int) (action : CorporateAction),
      foldAccount world (operations.foldl step sampleAccount) day (closeOutDelisted world day) =
        .ok folded →
      Admitted world ticker ex action →
      (∃ turn ∈ mutatedTurns world (operations.foldl step sampleAccount) day
          (closeOutDelisted world day),
        turn.session.day = ex ∧ (turn.begun.book.position ticker).qty ≠ 0) →
      SplitApplied world (mutatedTurns world (operations.foldl step sampleAccount) day
        (closeOutDelisted world day)) ticker ex := by
  intro reaches
  obtain ⟨folded, done⟩ := exists_ok (show (foldAccount (splittingWorld "NEW" 739772 739772 22)
      (convertedBeforeSplit.foldl step sampleAccount) 739772
      (closeOutDelisted (splittingWorld "NEW" 739772 739772 22) 739772)).isOk = true by
    decide +kernel)
  have applied := reaches convertedBeforeSplit (splittingWorld "NEW" 739772 739772 22) 739772
    folded "NEW" 739772 ⟨2, none⟩ done ⟨rfl, by norm_num, rfl⟩ (by decide +kernel)
  obtain ⟨turn, member, ratio, _, _, item, _⟩ := applied
  have unsplit : ∀ turn ∈ mutatedTurns (splittingWorld "NEW" 739772 739772 22)
      (convertedBeforeSplit.foldl step sampleAccount) 739772
      (closeOutDelisted (splittingWorld "NEW" 739772 739772 22) 739772),
      turn.item.splits "NEW" = false := by
    decide +kernel
  simpa [item, Item.splits] using unsplit turn member

end TradingEngine.Accounts
