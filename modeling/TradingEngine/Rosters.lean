import TradingEngine.LiquiditySharing

/-!
# A settlement run over every account

The run folds one account after another, in the order of receipt of their first
waiting orders. A fold sees the other accounts as they are at that moment: their
due orders ask for the same volume, and what they traded is already used. Within
one fold only its own account changes, so a lane's liquidity is shared out session
by session and account by account.
-/

namespace TradingEngine.Accounts

open KeyedTables OrderTypes Nyse Ledger Costs Fills Runs Allocation

variable {zone : Zone}

/-- An account in a fold as it began, but for orders that were closed or keep waiting. -/
structure Undisturbed (begun state : Account) : Prop where
  administration : state.administration = begun.administration
  listed : ∀ id, state.orders.lookup id = none ↔ begun.orders.lookup id = none
  waits : ∀ row ∈ state.pendingRows, ∃ old ∈ begun.pendingRows, Resumes old row

theorem Resumes.trans {first second third : PendingRow} (earlier : Resumes first second)
    (later : Resumes second third) : Resumes first third := by
  rcases earlier with rfl | rfl
  · exact later
  · rcases later with rfl | rfl
    · exact .inr rfl
    · exact .inr (waiting_waiting first)

namespace Undisturbed

theorem refl (account : Account) : Undisturbed account account :=
  ⟨rfl, fun _ => Iff.rfl, fun row waits => ⟨row, waits, .inl rfl⟩⟩

theorem trans {first second third : Account} (earlier : Undisturbed first second)
    (later : Undisturbed second third) : Undisturbed first third := by
  refine ⟨later.administration.trans earlier.administration,
    fun id => (later.listed id).trans (earlier.listed id), ?_⟩
  intro row waits
  obtain ⟨between, before, resumed⟩ := later.waits row waits
  obtain ⟨old, known, began⟩ := earlier.waits between before
  exact ⟨old, known, began.trans resumed⟩

theorem of_orders {before after : Account} (administration : after.administration = before.administration)
    (orders : after.orders = before.orders) : Undisturbed before after := by
  refine ⟨administration, fun id => by rw [orders], ?_⟩
  intro row waits
  unfold Account.pendingRows at waits ⊢
  rw [orders] at waits
  exact ⟨row, waits, .inl rfl⟩

end Undisturbed

/-- A settled order leaves the others as they are and itself closed or waiting. -/
theorem settleOrder_undisturbed {world : World zone} {session : Session} {account : Account}
    {row pending : PendingRow} {result : FillResult} {outcome : Account × Settled} {order : Order}
    (found : account.orders.lookup row.orderId = some order)
    (stored : pendingRow row.orderId order = some pending)
    (reasons : row.stateReason = pending.stateReason)
    (settled : settleOrder world session account row result = .ok outcome) :
    Undisturbed account outcome.1 := by
  obtain ⟨change, written, read⟩ := settleOrder_resumes stored reasons settled
  refine ⟨settleOrder_administration settled,
    fun id => by rw [written, lookup_rewriteOrder]; simp, ?_⟩
  intro waiting waits
  obtain ⟨next, present, known⟩ := mem_pendingRows.mp waits
  by_cases own : waiting.orderId = row.orderId
  · rw [own, written, lookup_rewriteOrder, found] at present
    simp only [if_true, Option.map_some, Option.some.injEq] at present
    rw [own, ← present] at known
    rcases read with gone | requeued
    · rw [gone] at known
      cases known
    · rw [requeued] at known
      cases known
      refine ⟨pending, mem_pendingRows.mpr ⟨order, ?_, ?_⟩, .inr rfl⟩
      · rw [pendingRow_orderId stored, found]
      · rw [pendingRow_orderId stored, stored]
  · rw [settleOrder_otherOrders own settled] at present
    exact ⟨waiting, mem_pendingRows.mpr ⟨next, present, known⟩, .inl rfl⟩

/-- A session closes its due orders or keeps them waiting. -/
theorem foldSession_undisturbed {world : World zone} {settings : AccountSettings}
    {account next : Account} {day : Int}
    (folded : foldSession world settings account day = .ok next) : Undisturbed account next := by
  obtain ⟨sequence, _, _, ran⟩ := foldSession_ok folded
  refine foldlM_visited (Undisturbed account) ?_ (.refl account) ran
  rintro ⟨state, item⟩ visited after kept applied
  cases executes : item.order with
  | none =>
    have books := applyItem_booksOnly executes applied
    exact kept.trans (.of_orders books.administration books.orders)
  | some id =>
    cases item with
    | execute row result =>
      obtain ⟨outcome, settled, rfl⟩ := map_ok.mp applied
      obtain ⟨pending, order, found, _, stored, _, prepare, _⟩ := executing_order visited
      exact kept.trans (settleOrder_undisturbed found stored (by rw [prepare]; rfl) settled)
    | _ => cases executes

theorem foldLoop_sessions {world : World zone} {account final : Account} {stop : Int}
    (invariant : Account → Prop)
    (opening : ∀ opened plan, openFold world account stop = .ok (opened, plan) → invariant opened)
    (sessions : ∀ state day next, invariant state →
      foldSession world account.settings state day = .ok next → invariant next)
    (marks : ∀ state day next, invariant state → markAccount world state day = .ok next →
      invariant next)
    (completed : foldLoop world account stop = .ok final) : invariant final := by
  obtain ⟨opened, plan, done, days⟩ := foldLoop_ok completed
  obtain ⟨_, _, _, _, _, _, _, settings⟩ := openFold_ok done
  refine foldlM_invariant invariant ?_ (opening opened plan done) days
  intro day _ state next kept folded
  obtain ⟨-, rfl⟩ | ⟨-, settled, session, finished⟩ := foldDay_ok folded
  · exact kept
  · rw [settings] at session
    have stepped := sessions state day settled kept session
    rcases finished with rfl | marked
    · exact stepped
    · exact marks settled day next stepped marked

theorem openFold_undisturbed {world : World zone} {account opened : Account} {stop : Int}
    {plan : FoldPlan} (done : openFold world account stop = .ok (opened, plan)) :
    Undisturbed account opened ∧ opened.ledger.fills = account.ledger.fills := by
  obtain ⟨_, _, _, _, rfl, _⟩ := openFold_ok done
  exact ⟨.of_orders rfl rfl, rfl⟩

/-- Whether settlement refused an order for a reason. -/
def Order.refusedAs (reason : Reason) (order : Order) : Bool :=
  order.details.any fun details => decide (details.state = .rejected) &&
    decide (details.stateReason = [reason])

/-- An order stayed, or it is no longer pending and settlement refused it before if at all. -/
def Withdrawn (old order : Order) : Prop :=
  order = old ∨ (order.status ≠ .pending ∧
    ∀ reason, order.refusedAs reason = true → old.refusedAs reason = true)

theorem Withdrawn.trans {first second third : Order} (earlier : Withdrawn first second)
    (later : Withdrawn second third) : Withdrawn first third := by
  rcases later with rfl | ⟨gone, refused⟩
  · exact earlier
  · rcases earlier with rfl | ⟨_, before⟩
    · exact .inr ⟨gone, refused⟩
    · exact .inr ⟨gone, fun reason after => before reason (refused reason after)⟩

theorem cancel_withdrawn (order : Order) (reason : Reason) (stateAt : Int) :
    Withdrawn order (order.cancel reason stateAt) := by
  refine .inr ⟨by simp [Order.cancel], ?_⟩
  intro other refused
  unfold Order.refusedAs Order.cancel at *
  cases stored : order.details with
  | none => simp [stored] at refused
  | some details =>
    by_cases queued : details.state = .queued
    · simp [stored, queued] at refused
    · simpa [stored, queued] using refused

/-- The orders of an earlier table, some withdrawn, and orders under fresh numbers. -/
structure Extends (fresh : OrderId → Prop) (before after : Table OrderId Order) : Prop where
  kept : ∀ id, after.lookup id = none → before.lookup id = none
  each : ∀ id order, after.lookup id = some order →
    (∃ old, before.lookup id = some old ∧ Withdrawn old order) ∨
      (before.lookup id = none ∧ fresh id)

namespace Extends

variable {fresh : OrderId → Prop}

theorem refl (orders : Table OrderId Order) : Extends fresh orders orders :=
  ⟨fun _ gone => gone, fun _ order found => .inl ⟨order, found, .inl rfl⟩⟩

theorem trans {first second third : Table OrderId Order} (earlier : Extends fresh first second)
    (later : Extends fresh second third) : Extends fresh first third := by
  refine ⟨fun id gone => earlier.kept id (later.kept id gone), ?_⟩
  intro id order found
  obtain ⟨between, known, withdrawn⟩ | ⟨new, isFresh⟩ := later.each id order found
  · obtain ⟨old, known, before⟩ | ⟨new, isFresh⟩ := earlier.each id between known
    · exact .inl ⟨old, known, before.trans withdrawn⟩
    · exact .inr ⟨new, isFresh⟩
  · exact .inr ⟨earlier.kept id new, isFresh⟩

theorem mapRows {orders : Table OrderId Order} {change : OrderId → Order → Order}
    (withdraws : ∀ id order, orders.lookup id = some order → Withdrawn order (change id order)) :
    Extends fresh orders (KeyedTables.mapRows change orders) := by
  refine ⟨fun id gone => by simpa [lookup_mapRows] using gone, ?_⟩
  intro id order found
  rw [lookup_mapRows, Option.map_eq_some_iff] at found
  obtain ⟨old, known, rfl⟩ := found
  exact .inl ⟨old, known, withdraws id old known⟩

end Extends

/-- Close-outs cancel orders. -/
theorem closeOutDelisted_extends {world : World zone} {day : Int} {account changed : Account}
    (closed : closeOutDelisted world day account = .ok changed) :
    Extends (fun _ => False) account.orders changed.orders := by
  refine foldlM_invariant (fun state : Account => Extends (fun _ => False) account.orders
    state.orders) ?_ (.refl _) closed
  intro terms _ state next kept done
  unfold closeOut at done
  split at done
  · obtain ⟨recorded, booked, done⟩ := bind_ok.mp done
    cases done
    have same := recordSettlement_orders booked
    unfold cancelSettled
    split
    · rwa [same]
    · dsimp only
      rw [same]
      refine kept.trans (.mapRows fun id order found => ?_)
      rw [settleCancel_planned found]
      split
      · exact cancel_withdrawn _ _ _
      · exact .inl rfl
  · cases done
    exact kept

theorem Extends.waits {before after : Account}
    (extended : Extends (fun _ => False) before.orders after.orders) :
    ∀ row ∈ after.pendingRows, row ∈ before.pendingRows := by
  intro row waits
  obtain ⟨order, found, read⟩ := mem_pendingRows.mp waits
  obtain ⟨old, known, rfl | ⟨gone, -⟩⟩ | ⟨_, impossible⟩ := extended.each _ _ found
  · exact mem_pendingRows.mpr ⟨order, known, read⟩
  · exact absurd (pendingRow_queued read).1 gone
  · cases impossible

/-- Close-outs cancel waiting orders and record no fill. -/
theorem closeOutDelisted_undisturbed {world : World zone} {day : Int} {account changed : Account}
    (closed : closeOutDelisted world day account = .ok changed) :
    Undisturbed account changed ∧ changed.ledger.fills = account.ledger.fills := by
  have extended := closeOutDelisted_extends closed
  refine ⟨⟨closeOutDelisted_administration closed, ?_, ?_⟩, by rw [(closeOutDelisted_ledger closed).2]⟩
  · intro id
    refine ⟨extended.kept id, ?_⟩
    intro missing
    by_contra present
    obtain ⟨order, found⟩ := Option.ne_none_iff_exists'.mp present
    obtain ⟨old, known, -⟩ | ⟨_, impossible⟩ := extended.each id order found
    · rw [missing] at known
      cases known
    · cases impossible
  · exact fun row waits => ⟨row, extended.waits row waits, .inl rfl⟩

theorem taken_of_fills {before after : Account} (lane : Lane)
    (fills : after.ledger.fills = before.ledger.fills) : after.taken lane = before.taken lane := by
  unfold Account.taken existingNotional
  rw [fills]

theorem fills_of_books {before after : Account} (books : after.books = before.books) :
    after.ledger.fills = before.ledger.fills := by
  simp only [Account.books, Prod.mk.injEq] at books
  rw [books.2]

/-- What the mutation, the sessions and the marks of a settlement preserve, and what stays
with the ledger afterwards, a settlement preserves. -/
theorem settleSession_invariant {world : World zone} {account : Account} {day : Int}
    (invariant : Account → Prop) (initially : invariant account)
    (sessions : ∀ state session next, Undisturbed account state → invariant state →
      foldSession world account.settings state session = .ok next → invariant next)
    (sameFills : ∀ before after, Undisturbed account after →
      after.ledger.fills = before.ledger.fills → Undisturbed before after →
      invariant before → invariant after)
    (finish : ∀ looped next, Undisturbed account looped → invariant looped →
      finishFold world looped = .ok next → invariant next)
    (mismatch : invariant (persistMismatch world account none)) :
    invariant (settleSession world account day) := by
  unfold settleSession
  split
  · split
    · rename_i folded
      obtain ⟨_, _, folded⟩ := bind_ok.mp folded
      obtain ⟨changed, mutated, folded⟩ := bind_ok.mp folded
      obtain ⟨looped, loop, finished⟩ := bind_ok.mp folded
      obtain ⟨undisturbed, fills⟩ := closeOutDelisted_undisturbed mutated
      have settings : changed.settings = account.settings :=
        congrArg Administration.settings undisturbed.administration
      have reached : Undisturbed account looped ∧ invariant looped := by
        refine foldLoop_sessions (fun state => Undisturbed account state ∧ invariant state)
          ?_ ?_ ?_ loop
        · intro opened plan done
          obtain ⟨same, kept⟩ := openFold_undisturbed done
          have all := undisturbed.trans same
          exact ⟨all, sameFills account opened all (kept.trans fills) all initially⟩
        · rintro state session next ⟨same, kept⟩ ran
          rw [settings] at ran
          exact ⟨same.trans (foldSession_undisturbed ran), sessions state session next same kept ran⟩
        · rintro state session next ⟨same, kept⟩ marked
          obtain ⟨row, prices, rfl⟩ := markAccount_ok marked
          have marks : Undisturbed state { state with
              equity := state.equity.insert session row
              marks := state.marks.insert session prices } := .of_orders rfl rfl
          exact ⟨same.trans marks, sameFills state _ (same.trans marks) rfl marks kept⟩
      exact finish looped _ reached.1 reached.2 finished
    · exact mismatch
  · exact initially

/-- The fills that an account recorded in a lane. -/
def Account.laneFills (account : Account) (lane : Lane) : List (Σ _ : OrderId, FillRow) :=
  account.ledger.fills.entries.filter fun row => decide (row.2.fillDate = lane.session) &&
    decide (row.2.ticker = lane.ticker) && decide (buying row.2.side = lane.direction)

/-- An order that the session refuses, or that belongs elsewhere, adds no fill to a lane. -/
theorem foldSession_laneFills {world : World zone} {settings : AccountSettings}
    {account next : Account} {day : Int} {lane : Lane}
    (closed : day = lane.session → ∀ item ∈ localPrepared world account lane.session,
      lane.holds item = true → ∀ terms, item.2 = .filled terms →
      item.1.orderId ∈ (openSession world settings account lane.session).refusals)
    (folded : foldSession world settings account day = .ok next) :
    next.laneFills lane = account.laneFills lane := by
  obtain ⟨sequence, _, _, ran⟩ := foldSession_ok folded
  refine foldlM_visited (fun state => state.laneFills lane = account.laneFills lane) ?_ rfl ran
  rintro ⟨state, item⟩ visited after kept applied
  refine Eq.trans ?_ kept
  cases executes : item.order with
  | none =>
    unfold Account.laneFills
    rw [(applyItem_booksOnly executes applied).fills]
  | some id =>
    cases item with
    | execute row result =>
      obtain ⟨outcome, settled, rfl⟩ := map_ok.mp applied
      obtain ⟨-, same⟩ | ⟨qty, terms, flagged, ready, priced, execution, -, fills, -⟩ :=
        settleOrder_books settled
      · unfold Account.laneFills
        rw [same]
      · have unfilled := execution.unfilled
        rw [afterPdt_ledger] at unfilled
        unfold Account.laneFills
        rw [fills, AList.entries_insert_of_notMem (AList.lookup_eq_none.mp unfilled),
          List.filter_cons_of_neg]
        -- The new row is of this lane only if the order is, and then it was refused.
        intro inside
        have key : (day = lane.session ∧ row.ticker = lane.ticker) ∧
            buying row.side = lane.direction := by
          simpa [executedRow, openSession] using inside
        obtain ⟨⟨own, ticker⟩, direction⟩ := key
        obtain ⟨pending, waits, isDue, prepare, attempted⟩ :=
          execute_mem_sessionItems (visitedM_mem _ visited)
        have listed : (row, result) ∈ localPrepared world account day := by
          refine List.mem_map.mpr ⟨pending, List.mem_filter.mpr ⟨waits, isDue⟩, ?_⟩
          rw [attempted, prepare]
        have refused := closed own (row, result) (own ▸ listed)
          (holds_iff.mpr ⟨ticker, direction⟩) terms priced
        rw [← own] at refused
        have same := settleOrder_refused refused settled
        rw [fills] at same
        have found := congrArg (AList.lookup row.orderId) same
        rw [AList.lookup_insert, unfilled] at found
        cases found
    | _ => cases executes

/-- Accounts by identifier, in the order of their identifiers. -/
abbrev Roster := Table String Account

/-- The other accounts that a fold sees. -/
def Roster.others (roster : Roster) (id : String) : List Account :=
  ((AList.erase id roster).entries).map Sigma.snd

/-- What the fold of one account sees: the due orders, the fills and the intents of the
others, and an order sequence above every order. -/
def Roster.seen (base : World zone) (roster : Roster) (id : String) : World zone :=
  { base with
    orderSequence := ((roster.others id).flatMap fun other => other.orders.keys).foldr max
      base.orderSequence
    foreignDue := fun day => (roster.others id).flatMap fun other => localPrepared base other day
    foreignNotional := fun day ticker direction => base.foreignNotional day ticker direction +
      ((roster.others id).map fun other => existingNotional other day ticker direction).sum
    foreignIntent := fun intentId => base.foreignIntent intentId ||
      (roster.others id).any fun other => (other.intakes.lookup intentId).isSome }

/-- Settle one account of the roster by its own fold. -/
def settleAccount (base : World zone) (day : Int) (roster : Roster) (id : String) : Roster :=
  mapRows (fun key account =>
    if key = id then settleSession (roster.seen base id) account day else account) roster

/-- Receipt of the waiting order with the lowest number; an account without one is last. -/
def Account.firstReceipt (account : Account) : WithTop (Int ×ₗ Nat) :=
  match account.pendingRows.head? with
  | some row => ↑(receiptKey row)
  | none => ⊤

/-- Accounts in the order in which a settlement run takes them. -/
def Roster.settlementOrder (roster : Roster) : List String :=
  (roster.entries.insertionSort fun a b =>
    toLex (a.2.firstReceipt, a.1) ≤ toLex (b.2.firstReceipt, b.1)).map Sigma.fst

/-- Settle every account by a full fold. -/
def settleRoster (base : World zone) (day : Int) (roster : Roster) : Roster :=
  roster.settlementOrder.foldl (settleAccount base day) roster

/-- What all accounts together took from a lane. -/
def Roster.taken (base : World zone) (roster : Roster) (lane : Lane) : ℚ :=
  base.foreignNotional lane.session lane.ticker lane.direction +
    total (fun _ account => account.taken lane) roster

theorem settlementOrder_nodup (roster : Roster) : roster.settlementOrder.Nodup := by
  have keys : roster.entries.keys.Nodup := roster.nodupKeys
  exact (((List.perm_insertionSort _ _).map Sigma.fst).nodup_iff).mpr keys

theorem mem_settlementOrder {roster : Roster} {id : String} :
    id ∈ roster.settlementOrder ↔ ∃ account, roster.lookup id = some account := by
  unfold Roster.settlementOrder
  rw [List.mem_map]
  constructor
  · rintro ⟨entry, inside, rfl⟩
    exact ⟨entry.2, lookup_of_mem ((List.mem_insertionSort _).mp inside)⟩
  · rintro ⟨account, found⟩
    exact ⟨⟨id, account⟩, (List.mem_insertionSort _).mpr (AList.mem_lookup_iff.mp found), rfl⟩

theorem settleAccounts_untouched (base : World zone) (day : Int) {ids : List String} {id : String}
    (absent : id ∉ ids) (state : Roster) :
    (ids.foldl (settleAccount base day) state).lookup id = state.lookup id := by
  refine foldl_invariant (fun reached : Roster => reached.lookup id = state.lookup id) ?_ rfl
  intro other member reached same
  have different : id ≠ other := by
    rintro rfl
    exact absent member
  rw [← same]
  simp [settleAccount, lookup_mapRows, different]

/-- Accounts settled once each are unchanged until their turn. -/
theorem settleAccounts_invariant {base : World zone} {day : Int} {roster : Roster}
    (invariant : Roster → Prop) (allowed : Roster → String → Prop) {ids : List String}
    (distinct : ids.Nodup) (listed : ∀ id ∈ ids, ∃ account, roster.lookup id = some account)
    (kept : ∀ state, ∀ id ∈ ids, ∀ account, roster.lookup id = some account →
      state.lookup id = some account → allowed state id → invariant state →
      invariant (settleAccount base day state id))
    {state : Roster} (initially : invariant state)
    (untouched : ∀ id ∈ ids, state.lookup id = roster.lookup id)
    (admissible : Admissible (settleAccount base day) allowed state ids) :
    invariant (ids.foldl (settleAccount base day) state) := by
  induction ids generalizing state with
  | nil => exact initially
  | cons id rest ih =>
    obtain ⟨fresh, restDistinct⟩ := List.nodup_cons.mp distinct
    obtain ⟨account, known⟩ := listed id List.mem_cons_self
    have present := (untouched id List.mem_cons_self).trans known
    refine ih restDistinct
      (fun other member => listed other (List.mem_cons_of_mem _ member))
      (fun state other member => kept state other (List.mem_cons_of_mem _ member))
      (kept state id List.mem_cons_self account known present admissible.1 initially) ?_ admissible.2
    intro other member
    rw [← untouched other (List.mem_cons_of_mem _ member)]
    have different : other ∉ [id] := by
      rintro ⟨⟩
      · exact fresh member
      · contradiction
    exact settleAccounts_untouched base day different state

/-- The accounts of a run are taken once each, unchanged until their turn. -/
theorem settleRoster_invariant {base : World zone} {day : Int} {roster : Roster}
    (invariant : Roster → Prop) (allowed : Roster → String → Prop)
    (initially : invariant roster)
    (kept : ∀ state id account, roster.lookup id = some account →
      state.lookup id = some account → allowed state id → invariant state →
      invariant (settleAccount base day state id))
    (admissible : Admissible (settleAccount base day) allowed roster roster.settlementOrder) :
    invariant (settleRoster base day roster) :=
  settleAccounts_invariant invariant allowed (settlementOrder_nodup roster)
    (fun _ member => mem_settlementOrder.mp member) (fun state id _ => kept state id) initially
    (fun _ _ => rfl) admissible

theorem mem_localPrepared {world : World zone} {account : Account} {day : Int} {item : Prepared} :
    item ∈ localPrepared world account day ↔
      ∃ row ∈ account.pendingRows, due row day = true ∧ prepared world account day row = item := by
  simp [localPrepared, prepared, and_assoc]

theorem Resumes.due {old row : PendingRow} (resumes : Resumes old row) (day : Int) :
    due row day = due old day := by
  rcases resumes with rfl | rfl <;> rfl

theorem Resumes.carries {old row : PendingRow} (resumes : Resumes old row) (lane : Lane) :
    lane.carries row = lane.carries old := by
  rcases resumes with rfl | rfl <;> rfl

/-- Every waiting order of a lane sees one limit. -/
def Account.SeesLimit (account : Account) (world : World zone) (lane : Lane) (bound : ℚ) : Prop :=
  ∀ row ∈ account.pendingRows, due row lane.session = true → lane.carries row = true →
    Sees bound (prepared world account lane.session row)

/-- What the waiting orders of a lane see, they see throughout a fold. -/
theorem Undisturbed.sees {world : World zone} {account state : Account} {lane : Lane} {bound : ℚ}
    (undisturbed : Undisturbed account state) (sees : account.SeesLimit world lane bound) :
    state.SeesLimit world lane bound := by
  intro row waits isDue inside
  obtain ⟨old, before, resumes⟩ := undisturbed.waits row waits
  rw [resumes.due] at isDue
  rw [resumes.carries] at inside
  have known := sees old before isDue inside
  have same : prepared world state lane.session row = prepared world account lane.session row := by
    unfold prepared
    rw [fillAttempt_congr (.of_administration undisturbed.administration)]
  unfold Sees at known ⊢
  rwa [same, volumeLimit_resumes resumes, planned_resumes resumes]

theorem Account.SeesLimit.localPrepared {world : World zone} {account : Account} {lane : Lane}
    {bound : ℚ} (sees : account.SeesLimit world lane bound) :
    ∀ item ∈ localPrepared world account lane.session, lane.holds item = true → Sees bound item := by
  intro item listed inside
  obtain ⟨row, waits, isDue, rfl⟩ := mem_localPrepared.mp listed
  exact sees row waits isDue inside

theorem taken_of_laneFills {before after : Account} {lane : Lane}
    (same : after.laneFills lane = before.laneFills lane) :
    after.taken lane = before.taken lane := by
  have listed : ∀ account : Account, account.taken lane =
      ((account.laneFills lane).map fun row => |row.2.qty * row.2.openPx|).sum := by
    intro account
    have chosen := volume_filter_ite (fun row : Σ _ : OrderId, FillRow => |row.2.qty * row.2.openPx|)
      (fun row => decide (row.2.fillDate = lane.session) && decide (row.2.ticker = lane.ticker) &&
        decide (buying row.2.side = lane.direction)) account.ledger.fills.entries
    refine Eq.trans ?_ chosen.symm
    unfold Account.taken existingNotional total
    simp [and_assoc]
  rw [listed, listed, same]

section OneAccount

variable {world : World zone} {account : Account} {lane : Lane} {bound : ℚ}
  (nonneg : ∀ item ∈ world.foreignDue lane.session, 0 ≤ planned item)
  (sees : account.SeesLimit world lane bound)

include nonneg sees

/-- A settlement keeps a lane within the limit that the account's orders see. -/
theorem settleSession_within (day : Int) :
    used world (settleSession world account day) lane ≤ max (used world account lane) bound := by
  refine settleSession_invariant (fun state => used world state lane ≤
    max (used world account lane) bound) (le_max_left _ _) ?_ ?_ ?_ ?_
  · intro state session next undisturbed kept ran
    have effort := foldSession_effort lane (fun _ => false) ran
    have nothing : ∀ account : Account, account.awaiting world lane (fun _ => false) = 0 := by
      intro account
      rw [awaiting_eq]
      simp
    unfold Account.stake at effort
    rw [nothing, nothing, add_zero, add_zero] at effort
    have raised : used world next lane ≤ used world state lane +
        if session = lane.session then
          volume planned (uncounted world account.settings state lane fun _ => false) else 0 := by
      unfold used
      linarith
    by_cases own : session = lane.session
    · rw [if_pos own] at raised
      have within := session_within account.settings nonneg
        (undisturbed.sees sees).localPrepared
      exact (raised.trans within).trans (max_le kept (le_max_right _ _))
    · rw [if_neg own, add_zero] at raised
      exact raised.trans kept
  · intro before after _ fills _ kept
    unfold used at kept ⊢
    rwa [taken_of_fills lane fills]
  · intro looped next _ kept finished
    unfold used at kept ⊢
    rwa [taken_of_fills lane (fills_of_books (finishFold_supervised finished).books)]
  · unfold used
    rw [taken_of_fills lane (fills_of_books (persistMismatch_supervised world account none).books)]
    exact le_max_left _ _

/-- A settlement adds no fill to a lane that is full. -/
theorem settleSession_full (day : Int) (full : bound < used world account lane) :
    (settleSession world account day).laneFills lane = account.laneFills lane := by
  have sameTable : ∀ before after : Account, after.ledger.fills = before.ledger.fills →
      after.laneFills lane = before.laneFills lane := by
    intro before after fills
    unfold Account.laneFills
    rw [fills]
  refine settleSession_invariant (fun state => state.laneFills lane = account.laneFills lane)
    rfl ?_ ?_ ?_ ?_
  · intro state session next undisturbed kept ran
    refine (foldSession_laneFills ?_ ran).trans kept
    intro _ item listed inside terms priced
    have still : bound < used world state lane := by
      unfold used at full ⊢
      rwa [taken_of_laneFills kept]
    have positive : planned item ≠ 0 := by
      obtain ⟨row, _, _, rfl⟩ := mem_localPrepared.mp listed
      have found := fillAttempt_filled priced
      rw [planned, priced]
      exact (mul_pos found.traded found.referenced).ne'
    have limited := ((undisturbed.sees sees).localPrepared item listed inside).resolve_right
      fun unpriced => positive unpriced.2
    exact session_full account.settings nonneg still listed inside limited
  · intro before after _ fills _ kept
    exact (sameTable before after fills).trans kept
  · intro looped next _ kept finished
    exact (sameTable looped next (fills_of_books (finishFold_supervised finished).books)).trans kept
  · exact sameTable account _ (fills_of_books (persistMismatch_supervised world account none).books)

end OneAccount

section RunOfAccounts

variable (base : World zone) {roster : Roster} {id : String} {account : Account}

/-- Other accounts' attempts read the market and the clock, not the roster. -/
theorem foreignDue_nonneg (base : World zone) (roster : Roster) (id : String) (day : Int) :
    ∀ item ∈ (roster.seen base id).foreignDue day, 0 ≤ planned item := by
  intro item listed
  obtain ⟨other, _, own⟩ := List.mem_flatMap.mp listed
  obtain ⟨row, _, _, rfl⟩ := mem_localPrepared.mp own
  exact planned_nonneg base other day row

/-- The fold of one account starts from what all accounts took. -/
theorem used_seen (found : roster.lookup id = some account) (lane : Lane) :
    used (roster.seen base id) account lane = roster.taken base lane := by
  unfold used Roster.taken
  rw [total_erase _ found]
  have others : ((roster.others id).map fun other =>
      existingNotional other lane.session lane.ticker lane.direction).sum =
      total (fun _ other : _ => Account.taken other lane) (AList.erase id roster) := by
    unfold Roster.others total
    rw [List.map_map]
    rfl
  simp only [Roster.seen, others]
  ring

theorem lookup_settleAccount (base : World zone) (day : Int) (roster : Roster) (id other : String) :
    (settleAccount base day roster id).lookup other = (roster.lookup other).map fun account =>
      if other = id then settleSession (roster.seen base id) account day else account :=
  lookup_mapRows _ roster other

theorem taken_settleAccount (found : roster.lookup id = some account) (day : Int) (lane : Lane) :
    (settleAccount base day roster id).taken base lane =
      used (roster.seen base id) (settleSession (roster.seen base id) account day) lane := by
  have exchanged := total_rewrite (fun _ account : _ => Account.taken account lane)
    (fun account => settleSession (roster.seen base id) account day) found
  have before := used_seen base found lane
  unfold used Roster.taken at before ⊢
  unfold settleAccount
  linarith

end RunOfAccounts

/-- A settlement run keeps each lane whose orders all see one volume within a hundredth of
it, or leaves it as it was when that was exceeded before. -/
theorem settleRoster_liquidity (base : World zone) (day : Int) (roster : Roster) (lane : Lane)
    {volume : ℚ}
    (same : ∀ id account, roster.lookup id = some account → ∀ row ∈ account.pendingRows,
      due row lane.session = true → lane.carries row = true →
      base.market.medianDollarVolume account.settings.priceSource lane.ticker lane.session
        (some base.now) = some volume) :
    (settleRoster base day roster).taken base lane ≤ volume / 100 + 1 / 10 ^ 9 ∨
      (volume / 100 + 1 / 10 ^ 9 < roster.taken base lane ∧
        (settleRoster base day roster).taken base lane = roster.taken base lane ∧
        ∀ id account settled, roster.lookup id = some account →
          (settleRoster base day roster).lookup id = some settled →
          settled.laneFills lane = account.laneFills lane) := by
  have sees : ∀ id account state, roster.lookup id = some account →
      account.SeesLimit (Roster.seen base state id) lane (volume / 100 + 1 / 10 ^ 9) := by
    intro id account state found row waits isDue inside
    have median := same id account found row waits isDue inside
    rw [← (holds_iff.mp (show lane.holds (row, .pending) = true from inside)).1] at median
    exact prepared_sees median
  have run : Admissible (settleAccount base day) (fun _ _ => True) roster roster.settlementOrder :=
    admissible_of_forall (fun _ _ => trivial) _ _
  by_cases full : volume / 100 + 1 / 10 ^ 9 < roster.taken base lane
  · right
    have kept : (settleRoster base day roster).taken base lane = roster.taken base lane ∧
        ∀ id account settled, roster.lookup id = some account →
          (settleRoster base day roster).lookup id = some settled →
          settled.laneFills lane = account.laneFills lane := by
      refine settleRoster_invariant (fun state => state.taken base lane = roster.taken base lane ∧
        ∀ id account settled, roster.lookup id = some account →
          state.lookup id = some settled → settled.laneFills lane = account.laneFills lane)
        _ ⟨rfl, ?_⟩ ?_ run
      · intro id account settled found present
        rw [found] at present
        cases present
        rfl
      · rintro state id account found present - ⟨total, fills⟩
        have closed := settleSession_full (foreignDue_nonneg base state id lane.session)
          (sees id account state found) day (by rw [used_seen base present, total]; exact full)
        refine ⟨?_, ?_⟩
        · rw [taken_settleAccount base present, ← total, ← used_seen base present]
          unfold used
          rw [taken_of_laneFills closed]
        · intro other before settled known stored
          rw [lookup_settleAccount, Option.map_eq_some_iff] at stored
          obtain ⟨current, listed, rfl⟩ := stored
          split
          · rename_i own
            subst own
            rw [present] at listed
            cases listed
            rw [closed]
            exact fills other before account known present
          · exact fills other before current known listed
    exact ⟨full, kept⟩
  · left
    refine settleRoster_invariant (fun state => state.taken base lane ≤ volume / 100 + 1 / 10 ^ 9)
      _ (not_lt.mp full) ?_ run
    intro state id account found present _ within
    rw [taken_settleAccount base present]
    refine (settleSession_within (foreignDue_nonneg base state id lane.session)
      (sees id account state found) day).trans ?_
    rw [used_seen base present]
    exact max_le within le_rfl

/-- The steady market with a median volume of 150000 dollars. -/
def thinWorld (day hours : Int) : World daylightTime :=
  { sampleWorld day hours with
    market := { steadyMarket 10 ten_positive with medianDollarVolume := fun _ _ _ _ => some 150000 } }

/-- Two accounts that each want a thousand dollars of one instrument on a Tuesday. -/
def twoBuyers : Roster :=
  tableOf [("first", submit (thinWorld 739768 22) sampleAccount
      (sampleIntent "buy" "SYM" .buy 100 739768)),
    ("second", submit { thinWorld 739768 22 with orderSequence := 1 } sampleAccount
      (sampleIntent "buy" "SYM" .buy 100 739768))]

/-- The second of two buyers is refused, and the first one's thousand dollars stay within
a hundredth of the volume. -/
theorem twoBuyers_liquidity :
    (settleRoster (thinWorld 739769 22) 739769 twoBuyers).taken (thinWorld 739769 22)
        ⟨739769, "SYM", true⟩ = 1000 ∧
      (settleRoster (thinWorld 739769 22) 739769 twoBuyers).taken (thinWorld 739769 22)
        ⟨739769, "SYM", true⟩ ≤ 150000 / 100 + 1 / 10 ^ 9 := by
  refine ⟨by decide +kernel, ?_⟩
  refine (settleRoster_liquidity (thinWorld 739769 22) 739769 twoBuyers ⟨739769, "SYM", true⟩
    fun _ _ _ _ _ _ _ => rfl).resolve_right ?_
  rintro ⟨full, -⟩
  exact absurd full (by decide +kernel)

end TradingEngine.Accounts
