import TradingEngine.AccountService
import TradingEngine.Runs

/-!
# Maintenance of all accounts

One call may check one account or all of them. The loop over the accounts stores the
identifier of the account that it reduces in the variable by which it selects accounts, so
a call for all accounts reduces the first processing margin account and passes over the
rest. It does what a call for each account would do exactly when the rest need nothing.
-/

namespace TradingEngine.Accounts

open KeyedTables OrderTypes Nyse Ledger Costs Fills Runs

variable {zone : Zone}

/-- The payload of a recorded margin call. -/
structure MarginCall where
  sessionDate : Int
  equity : ℚ
  maintenanceRequirement : ℚ
  maintenanceExcess : ℚ
  deriving DecidableEq

/-- The accounts of the engine in the order of their identifiers, the margin calls that
each has on record, and the number sequence of their orders. -/
structure AccountStore where
  ids : List String
  ordered : ids.Pairwise (· < ·)
  account : String → Account
  marginCalls : String → List MarginCall
  recordsEvents : Bool
  orderSequence : Nat

namespace AccountStore

/-- The largest order number in use. -/
def lastNumber (store : AccountStore) : Nat :=
  (store.ids.flatMap fun id => (store.account id).orders.keys).foldr max store.orderSequence

/-- The settings of every account, as a call reads them at its start. -/
def accountPortfolios (store : AccountStore) : List (String × AccountSettings) :=
  store.ids.map fun id => (id, (store.account id).settings)

end AccountStore

def MarginState.call (state : MarginState) (day : Int) : MarginCall :=
  ⟨day, state.equity, state.maintenanceRequirement, state.maintenanceExcess⟩

/-- Short of maintenance, with something to reduce. -/
def MarginState.Breached (state : MarginState) : Prop :=
  ¬(0 ≤ state.maintenanceExcess ∨ state.maintenanceRequirement ≤ 0)

instance (state : MarginState) : Decidable state.Breached := by
  unfold MarginState.Breached
  infer_instance

/-- The share of every holding that a breach reduces. -/
def MarginState.ratio (state : MarginState) : ℚ :=
  min 1 (-state.maintenanceExcess / state.maintenanceRequirement)

/-- Record a margin call once. -/
def recordCall (recordsEvents : Bool) (calls : List MarginCall) (call : MarginCall) :
    List MarginCall :=
  if recordsEvents = true ∧ call ∉ calls then calls ++ [call] else calls

namespace AccountStore

variable (world : World zone) (day : Int)

/-- Record the margin call of an account and queue its reductions. -/
def queueMarginReductions (store : AccountStore) (id : String) :
    Except AccountError AccountStore := do
  let state ← marginState world.market (store.account id) day none 0 none none
  if state.Breached then
    let reduced ← Accounts.queueMarginReductions
      { world with orderSequence := store.lastNumber } (store.account id) day
    .ok { store with
      account := Function.update store.account id reduced
      marginCalls := Function.update store.marginCalls id
        (recordCall store.recordsEvents (store.marginCalls id) (state.call day)) }
  else .ok store

/-- The loop over the accounts. It assigns to the variable that selects them. -/
def checkRows : Option String → AccountStore → List (String × AccountSettings) →
    Except AccountError AccountStore
  | _, store, [] => .ok store
  | portfolioId, store, (id, settings) :: rest =>
    if settings.status.processing = false then checkRows portfolioId store rest
    else if ∃ only ∈ portfolioId, id ≠ only then checkRows portfolioId store rest
    else if settings.accountType ≠ .margin then checkRows portfolioId store rest
    else do
      let queued ← store.queueMarginReductions world day id
      checkRows (some id) queued rest

/-- Queue reductions for every processing margin account below maintenance, or for one. -/
def checkMaintenance (portfolioId : Option String) (store : AccountStore) :
    Except AccountError AccountStore :=
  store.checkRows world day portfolioId store.accountPortfolios

/-- One call for each account. -/
def checkEach (store : AccountStore) : Except AccountError AccountStore :=
  store.ids.foldlM (fun store id => store.checkMaintenance world day (some id)) store

/-- The accounts that maintenance applies to, in order. -/
def processed (store : AccountStore) : List String :=
  store.ids.filter fun id => (store.account id).settings.status.processing &&
    decide ((store.account id).settings.accountType = .margin)

/-- Nothing is left to record or to queue for an account: it is not in breach, or its call
is on record and every holding has its reduction or is too small for one. -/
def NeedsNothing (store : AccountStore) (id : String) : Prop :=
  ∃ state, marginState world.market (store.account id) day none 0 none none = .ok state ∧
    (state.Breached →
      (store.recordsEvents = true → state.call day ∈ store.marginCalls id) ∧
      ∀ row ∈ (store.account id).book.held,
        |row.2| * state.ratio ≤ 1 / 10 ^ 12 ∨
          (store.account id).hasForced row.1 .marginCall = true)

end AccountStore

theorem queue_length (account : Account) (sequence : Nat) (order : Order) :
    (account.queue sequence order).orders.keys.length = account.orders.keys.length + 1 := by
  have missing := nextOrderId_missing sequence account.orders
  have unlisted : nextOrderId sequence account.orders ∉ account.orders.keys := fun listed =>
    AList.lookup_eq_none.mp missing (AList.mem_keys.mpr listed)
  unfold Account.queue
  rw [AList.keys_insert, List.erase_of_not_mem unlisted, List.length_cons]

/-- The step over the holdings of a breached account. -/
def reduceHolding (world : World zone) (day : Int) (ratio : ℚ) (account : Account)
    (row : Ticker × ℚ) : Account :=
  if |row.2| * ratio ≤ 1 / 10 ^ 12 ∨ account.hasForced row.1 .marginCall then account
  else account.queue world.orderSequence (forcedOrder row.1 (reducingSide row.2)
    (|row.2| * ratio) .nextOpen OrderType.nextOpen_unlimited day (closed zone day) .marginCall)

theorem reduceHolding_length (world : World zone) (day : Int) (ratio : ℚ) (account : Account)
    (row : Ticker × ℚ) :
    account.orders.keys.length ≤
      (reduceHolding world day ratio account row).orders.keys.length := by
  unfold reduceHolding
  split
  · exact le_refl _
  · rw [queue_length]
    exact Nat.le_succ _

theorem foldl_reduceHolding_length (world : World zone) (day : Int) (ratio : ℚ)
    (rows : List (Ticker × ℚ)) (account : Account) :
    account.orders.keys.length ≤
      (rows.foldl (reduceHolding world day ratio) account).orders.keys.length := by
  induction rows generalizing account with
  | nil => exact le_refl _
  | cons row rest ih =>
    exact (reduceHolding_length world day ratio account row).trans (ih _)

/-- The holdings leave an account as it is exactly when none of them needs an order. -/
theorem foldl_reduceHolding_eq_self (world : World zone) (day : Int) (ratio : ℚ)
    (rows : List (Ticker × ℚ)) (account : Account) :
    rows.foldl (reduceHolding world day ratio) account = account ↔
      ∀ row ∈ rows, |row.2| * ratio ≤ 1 / 10 ^ 12 ∨ account.hasForced row.1 .marginCall = true := by
  induction rows with
  | nil => simp
  | cons row rest ih =>
    rw [List.foldl_cons, List.forall_mem_cons]
    by_cases spared : |row.2| * ratio ≤ 1 / 10 ^ 12 ∨ account.hasForced row.1 .marginCall = true
    · have same : reduceHolding world day ratio account row = account := if_pos spared
      rw [same, ih]
      exact (and_iff_right spared).symm
    · have queued : account.orders.keys.length <
          (reduceHolding world day ratio account row).orders.keys.length := by
        rw [reduceHolding, if_neg spared, queue_length]
        exact Nat.lt_succ_self _
      have longer := foldl_reduceHolding_length world day ratio rest
        (reduceHolding world day ratio account row)
      constructor
      · intro same
        rw [same] at longer
        exact absurd (queued.trans_le longer) (lt_irrefl _)
      · exact fun unneeded => absurd unneeded.1 spared

/-- Queueing orders keeps the settings. -/
theorem foldl_reduceHolding_settings (world : World zone) (day : Int) (ratio : ℚ)
    (rows : List (Ticker × ℚ)) (account : Account) :
    (rows.foldl (reduceHolding world day ratio) account).settings = account.settings := by
  induction rows generalizing account with
  | nil => rfl
  | cons row rest ih =>
    rw [List.foldl_cons, ih]
    unfold reduceHolding
    split <;> rfl

theorem queueMarginReductions_breached {world : World zone} {account : Account} {day : Int}
    {state : MarginState}
    (marked : marginState world.market account day none 0 none none = .ok state)
    (breached : state.Breached) :
    queueMarginReductions world account day =
      .ok (account.book.held.foldl (reduceHolding world day state.ratio) account) := by
  unfold queueMarginReductions
  rw [marked]
  exact if_neg breached

theorem recordCall_eq_self {recordsEvents : Bool} {calls : List MarginCall} {call : MarginCall} :
    recordCall recordsEvents calls call = calls ↔ (recordsEvents = true → call ∈ calls) := by
  unfold recordCall
  split
  · rename_i new
    constructor
    · intro same
      exact absurd (congrArg List.length same) (by simp)
    · exact fun known => absurd (known new.1) new.2
  · rename_i recorded
    simpa using recorded

namespace AccountStore

variable {world : World zone} {day : Int}

/-- What a reduction of one account leaves. -/
structure Reduced (world : World zone) (day : Int) (id : String) (store queued : AccountStore) :
    Prop where
  ids : queued.ids = store.ids
  events : queued.recordsEvents = store.recordsEvents
  settings : ∀ other, (queued.account other).settings = (store.account other).settings
  others : ∀ other, other ≠ id → queued.account other = store.account other ∧
    queued.marginCalls other = store.marginCalls other
  unneeded : queued.account id = store.account id → queued.marginCalls id = store.marginCalls id →
    store.NeedsNothing world day id

variable {id : String}

theorem queueMarginReductions_ok {store queued : AccountStore}
    (ran : store.queueMarginReductions world day id = .ok queued) :
    Reduced world day id store queued := by
  obtain ⟨state, marked, ran⟩ := bind_ok.mp ran
  by_cases breached : state.Breached
  · rw [if_pos breached] at ran
    obtain ⟨reduced, booked, ran⟩ := bind_ok.mp ran
    cases ran
    rw [queueMarginReductions_breached (by exact marked) breached] at booked
    cases booked
    refine ⟨rfl, rfl, ?_, ?_, ?_⟩
    · intro other
      by_cases same : other = id
      · subst same
        simp [foldl_reduceHolding_settings]
      · simp [same]
    · intro other different
      simp [different]
    · intro account calls
      simp only [Function.update_self] at account calls
      exact ⟨state, marked, fun _ => ⟨recordCall_eq_self.mp calls,
        (foldl_reduceHolding_eq_self _ _ _ _ _).mp account⟩⟩
  · rw [if_neg breached] at ran
    cases ran
    exact ⟨rfl, rfl, fun _ => rfl, fun _ _ => ⟨rfl, rfl⟩,
      fun _ _ => ⟨state, marked, fun short => absurd short breached⟩⟩

theorem queueMarginReductions_returns {store : AccountStore} {state : MarginState}
    (marked : marginState world.market (store.account id) day none 0 none none = .ok state) :
    ∃ queued, store.queueMarginReductions world day id = .ok queued := by
  by_cases breached : state.Breached
  · exact ⟨_, bind_ok.mpr ⟨state, marked, (if_pos breached).trans
      (bind_ok.mpr ⟨_, queueMarginReductions_breached (by exact marked) breached, rfl⟩)⟩⟩
  · exact ⟨store, bind_ok.mpr ⟨state, marked, if_neg breached⟩⟩

theorem queueMarginReductions_unneeded {store : AccountStore}
    (unneeded : store.NeedsNothing world day id) :
    store.queueMarginReductions world day id = .ok store := by
  obtain ⟨state, marked, nothing⟩ := unneeded
  refine bind_ok.mpr ⟨state, marked, ?_⟩
  by_cases breached : state.Breached
  · obtain ⟨recorded, spared⟩ := nothing breached
    rw [if_pos breached]
    refine bind_ok.mpr ⟨_, queueMarginReductions_breached (by exact marked) breached, ?_⟩
    rw [(foldl_reduceHolding_eq_self _ _ _ _ _).mpr spared, recordCall_eq_self.mpr recorded,
      Function.update_eq_self, Function.update_eq_self]
  · rw [if_neg breached]

theorem NeedsNothing.congr {store other : AccountStore}
    (account : other.account id = store.account id)
    (calls : other.marginCalls id = store.marginCalls id)
    (events : other.recordsEvents = store.recordsEvents) :
    other.NeedsNothing world day id ↔ store.NeedsNothing world day id := by
  unfold NeedsNothing
  rw [account, calls, events]

theorem checkRows_unlisted {store : AccountStore} {only : String}
    {rows : List (String × AccountSettings)} (unlisted : only ∉ rows.map Prod.fst) :
    store.checkRows world day (some only) rows = .ok store := by
  induction rows with
  | nil => rfl
  | cons row rest ih =>
    rw [List.map_cons, List.mem_cons, not_or] at unlisted
    have later := ih unlisted.2
    have different : ∃ selected ∈ some only, row.1 ≠ selected :=
      ⟨only, rfl, fun same => unlisted.1 same.symm⟩
    rw [checkRows, if_pos different, later, ite_self]

/-- The rows that maintenance applies to. -/
def eligible (rows : List (String × AccountSettings)) : List String :=
  (rows.filter fun row => row.2.status.processing && decide (row.2.accountType = .margin)).map
    Prod.fst

theorem eligible_accountPortfolios (store : AccountStore) :
    eligible store.accountPortfolios = store.processed := by
  unfold eligible accountPortfolios processed
  rw [List.filter_map, List.map_map]
  exact List.map_id _

/-- Without a selection the loop ends with the first account that it reduces. -/
theorem checkRows_none {store : AccountStore} {rows : List (String × AccountSettings)}
    (distinct : (rows.map Prod.fst).Nodup) :
    store.checkRows world day none rows =
      match eligible rows with
      | [] => .ok store
      | first :: _ => store.queueMarginReductions world day first := by
  induction rows with
  | nil => rfl
  | cons row rest ih =>
    obtain ⟨fresh, others⟩ := List.nodup_cons.mp distinct
    have later := ih others
    by_cases processing : row.2.status.processing = true
    · by_cases margin : row.2.accountType = .margin
      · have listed : eligible (row :: rest) = row.1 :: eligible rest := by
          simp [eligible, processing, margin]
        rw [listed, checkRows, if_neg (by simp [processing]), if_neg (by simp),
          if_neg (not_not_intro margin)]
        dsimp only
        cases ran : store.queueMarginReductions world day row.1 with
        | error raised => rfl
        | ok queued => exact checkRows_unlisted fresh
      · have passed : eligible (row :: rest) = eligible rest := by
          simp [eligible, margin]
        rw [passed, checkRows, if_neg (by simp [processing]), if_neg (by simp),
          if_pos margin, later]
    · have passed : eligible (row :: rest) = eligible rest := by
        simp [eligible, processing]
      rw [passed, checkRows, if_pos (by simpa using processing), later]

/-- With a selection the loop reduces the selected account, if maintenance applies to it. -/
theorem checkRows_some {store : AccountStore} {rows : List (String × AccountSettings)}
    (distinct : (rows.map Prod.fst).Nodup) (only : String) :
    store.checkRows world day (some only) rows =
      if only ∈ eligible rows then store.queueMarginReductions world day only else .ok store := by
  induction rows with
  | nil => rfl
  | cons row rest ih =>
    obtain ⟨fresh, others⟩ := List.nodup_cons.mp distinct
    by_cases selected : row.1 = only
    · subst selected
      have unlisted : row.1 ∉ eligible rest := by
        intro listed
        obtain ⟨other, kept, same⟩ := List.mem_map.mp listed
        exact fresh (same ▸ List.mem_map_of_mem (List.mem_of_mem_filter kept))
      by_cases processing : row.2.status.processing = true
      · by_cases margin : row.2.accountType = .margin
        · have listed : row.1 ∈ eligible (row :: rest) := by
            simp [eligible, processing, margin]
          rw [if_pos listed, checkRows, if_neg (by simp [processing]), if_neg (by simp),
            if_neg (not_not_intro margin)]
          cases ran : store.queueMarginReductions world day row.1 with
          | error raised => rfl
          | ok queued => exact checkRows_unlisted fresh
        · have passed : eligible (row :: rest) = eligible rest := by
            simp [eligible, margin]
          rw [passed, if_neg unlisted, checkRows, if_neg (by simp [processing]), if_neg (by simp),
            if_pos margin]
          exact checkRows_unlisted fresh
      · have passed : eligible (row :: rest) = eligible rest := by
          simp [eligible, processing]
        rw [passed, if_neg unlisted, checkRows, if_pos (by simpa using processing)]
        exact checkRows_unlisted fresh
    · have passed : only ∈ eligible (row :: rest) ↔ only ∈ eligible rest := by
        have other : only ≠ row.1 := fun same => selected same.symm
        unfold eligible
        rw [List.filter_cons]
        split
        · rw [List.map_cons, List.mem_cons, or_iff_right other]
        · rfl
      have different : ∃ chosen ∈ some only, row.1 ≠ chosen := ⟨only, rfl, selected⟩
      rw [checkRows, if_pos different, ite_self, ih others]
      simp only [passed]

theorem accountPortfolios_ids (store : AccountStore) :
    store.accountPortfolios.map Prod.fst = store.ids := by
  unfold accountPortfolios
  rw [List.map_map]
  exact List.map_id _

theorem ids_nodup (store : AccountStore) : store.ids.Nodup :=
  store.ordered.imp fun before => ne_of_lt before

theorem checkMaintenance_some (store : AccountStore) (only : String) :
    store.checkMaintenance world day (some only) =
      if only ∈ store.processed then store.queueMarginReductions world day only
      else .ok store := by
  have distinct : (store.accountPortfolios.map Prod.fst).Nodup := by
    rw [accountPortfolios_ids]
    exact store.ids_nodup
  unfold checkMaintenance
  rw [checkRows_some distinct, eligible_accountPortfolios]

/-- A reduction keeps the accounts that maintenance applies to. -/
theorem Reduced.processed {store queued : AccountStore}
    (reduced : Reduced world day id store queued) : queued.processed = store.processed := by
  unfold AccountStore.processed
  rw [reduced.ids]
  simp only [reduced.settings]

/-- One call for each account reduces the accounts that maintenance applies to, in order. -/
theorem checkEach_eq (store : AccountStore) :
    store.checkEach world day =
      store.processed.foldlM (fun store id => store.queueMarginReductions world day id) store := by
  have general : ∀ (ids : List String) (current : AccountStore),
      current.processed = store.processed →
      ids.foldlM (fun store id => store.checkMaintenance world day (some id)) current =
        (ids.filter (· ∈ store.processed)).foldlM
          (fun store id => store.queueMarginReductions world day id) current := by
    intro ids
    induction ids with
    | nil =>
      intro current _
      rfl
    | cons id rest ih =>
      intro current same
      rw [List.foldlM_cons, checkMaintenance_some, same]
      by_cases listed : id ∈ store.processed
      · rw [if_pos listed, List.filter_cons_of_pos (by simpa using listed), List.foldlM_cons]
        cases ran : current.queueMarginReductions world day id with
        | error raised => rfl
        | ok queued =>
          exact ih queued ((queueMarginReductions_ok ran).processed.trans same)
      · rw [if_neg listed, List.filter_cons_of_neg (by simpa using listed)]
        exact ih current same
  have kept : store.ids.filter (· ∈ store.processed) = store.processed := by
    unfold processed
    refine List.filter_congr fun id listed => ?_
    simp [listed]
  unfold checkEach
  rw [general store.ids store rfl, kept]

/-- Reductions of different accounts leave a store as it is exactly when none is needed. -/
theorem foldlM_queueMarginReductions_eq_self {ids : List String} (distinct : ids.Nodup)
    {store : AccountStore} :
    ids.foldlM (fun store id => store.queueMarginReductions world day id) store = .ok store ↔
      ∀ id ∈ ids, store.NeedsNothing world day id := by
  constructor
  · -- every account keeps in the end what its own reduction left
    have general : ∀ (ids : List String) (current final : AccountStore), ids.Nodup →
        ids.foldlM (fun store id => store.queueMarginReductions world day id) current =
          .ok final →
        (∀ id, id ∉ ids → final.account id = current.account id ∧
          final.marginCalls id = current.marginCalls id) ∧
        ∀ id ∈ ids, final.account id = current.account id →
          final.marginCalls id = current.marginCalls id →
          current.NeedsNothing world day id := by
      intro ids
      induction ids with
      | nil =>
        intro current final _ ran
        cases ran
        exact ⟨fun _ _ => ⟨rfl, rfl⟩, fun _ listed => absurd listed List.not_mem_nil⟩
      | cons first rest ih =>
        intro current final distinct ran
        obtain ⟨fresh, others⟩ := List.nodup_cons.mp distinct
        obtain ⟨queued, reduced, ran⟩ := foldlM_cons_ok.mp ran
        obtain ⟨outside, inside⟩ := ih queued final others ran
        have step := queueMarginReductions_ok reduced
        refine ⟨?_, ?_⟩
        · intro id unlisted
          rw [List.mem_cons, not_or] at unlisted
          obtain ⟨account, calls⟩ := outside id unlisted.2
          obtain ⟨before, earlier⟩ := step.others id unlisted.1
          exact ⟨account.trans before, calls.trans earlier⟩
        · intro id listed account calls
          rcases List.mem_cons.mp listed with rfl | later
          · obtain ⟨kept, same⟩ := outside id fresh
            exact step.unneeded (kept.symm.trans account) (same.symm.trans calls)
          · have different : id ≠ first := fun same => fresh (same ▸ later)
            obtain ⟨before, earlier⟩ := step.others id different
            exact (NeedsNothing.congr before earlier step.events).mp
              (inside id later (account.trans before.symm) (calls.trans earlier.symm))
    intro same id listed
    exact (general ids store store distinct same).2 id listed rfl rfl
  · intro unneeded
    clear distinct
    induction ids with
    | nil => rfl
    | cons first rest ih =>
      obtain ⟨now, later⟩ := List.forall_mem_cons.mp unneeded
      exact foldlM_cons_ok.mpr ⟨store, queueMarginReductions_unneeded now,
        ih later⟩

/-- A call for all accounts has the effect of one call for each account exactly when the
first account cannot be marked or the accounts after it need nothing. -/
theorem checkMaintenance_all_iff (world : World zone) (day : Int) (store : AccountStore) :
    store.checkMaintenance world day none = store.checkEach world day ↔
      ∀ first rest, store.processed = first :: rest →
        (∃ raised, marginState world.market (store.account first) day none 0 none none =
          .error raised) ∨
        ∀ id ∈ rest, store.NeedsNothing world day id := by
  have distinct : (store.accountPortfolios.map Prod.fst).Nodup := by
    rw [accountPortfolios_ids]
    exact store.ids_nodup
  have nodup : store.processed.Nodup := store.ids_nodup.filter _
  unfold checkMaintenance
  rw [checkRows_none distinct, eligible_accountPortfolios, checkEach_eq]
  cases accounts : store.processed with
  | nil =>
    refine iff_of_true rfl fun first rest nonempty => ?_
    cases nonempty
  | cons first rest =>
    rw [accounts] at nodup
    obtain ⟨fresh, others⟩ := List.nodup_cons.mp nodup
    have named : (∀ other later, first :: rest = other :: later →
        (∃ raised, marginState world.market (store.account other) day none 0 none none =
          .error raised) ∨ ∀ id ∈ later, store.NeedsNothing world day id) ↔
        (∃ raised, marginState world.market (store.account first) day none 0 none none =
          .error raised) ∨ ∀ id ∈ rest, store.NeedsNothing world day id := by
      constructor
      · exact fun every => every first rest rfl
      · intro single other later same
        cases same
        exact single
    rw [named, List.foldlM_cons]
    dsimp only
    cases ran : store.queueMarginReductions world day first with
    | error raised =>
      refine iff_of_true rfl (.inl ?_)
      cases marked : marginState world.market (store.account first) day none 0 none none with
      | error raised => exact ⟨raised, rfl⟩
      | ok state =>
        obtain ⟨queued, returned⟩ := queueMarginReductions_returns marked
        cases ran.symm.trans returned
    | ok queued =>
      have step := queueMarginReductions_ok ran
      have marked : ¬∃ raised,
          marginState world.market (store.account first) day none 0 none none =
            .error raised := by
        rintro ⟨raised, marked⟩
        obtain ⟨state, known, -⟩ := bind_ok.mp ran
        rw [marked] at known
        cases known
      have same : ∀ id ∈ rest,
          queued.NeedsNothing world day id ↔ store.NeedsNothing world day id := by
        intro id listed
        obtain ⟨account, calls⟩ := step.others id fun same => fresh (same ▸ listed)
        exact NeedsNothing.congr account calls step.events
      rw [or_iff_right marked]
      exact eq_comm.trans ((foldlM_queueMarginReductions_eq_self others).trans (forall₂_congr same))

/-- A margin account that owes 9000 dollars and holds a hundred shares. -/
def indebtedAccount : Account :=
  { sampleAccount with
    settings := { sampleAccount.settings with accountType := .margin, status := .active }
    book := ⟨-9000, (∅ : Table Ticker Position).insert "XYZ" ⟨100, 100⟩, ∅, []⟩ }

/-- Two such accounts. -/
def twoIndebted : AccountStore where
  ids := ["first", "second"]
  ordered := by decide
  account _ := indebtedAccount
  marginCalls _ := []
  recordsEvents := true
  orderSequence := 0

/-- Every share trades at a hundred dollars. -/
def hundredWorld : World daylightTime :=
  worldAt (steadyMarket 100 hundred_positive) (739769 * dayLength + 22 * hour)

/-- The number of orders of the second account after a call. -/
def secondOrders (ran : Except AccountError AccountStore) : Option Nat :=
  ran.toOption.map fun store => (store.account "second").orders.keys.length

theorem twoIndebted_all : secondOrders (twoIndebted.checkMaintenance hundredWorld 739769 none) =
    some 0 := by
  decide +kernel

theorem twoIndebted_each : secondOrders (twoIndebted.checkEach hundredWorld 739769) = some 1 := by
  decide +kernel

/-- A call for all accounts passes over the second of two accounts in breach. -/
theorem checkMaintenance_all_differs :
    ¬∀ (zone : Zone) (world : World zone) (day : Int) (store : AccountStore),
      store.checkMaintenance world day none = store.checkEach world day := by
  intro every
  have same := every daylightTime hundredWorld 739769 twoIndebted
  have counted := twoIndebted_all
  rw [same, twoIndebted_each] at counted
  cases counted

end AccountStore

end TradingEngine.Accounts
