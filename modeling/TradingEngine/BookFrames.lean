import TradingEngine.Retirement

/-!
# Calls that leave the books alone

Only a fold changes the book and the retained ledger of an account. Halts,
cancellations, intakes, retirements and the checks that close a fold touch
neither, and the settlements that a call records before its fold are the only
other rows it writes.
-/

namespace TradingEngine.Accounts

open KeyedTables OrderTypes Nyse Ledger Costs Fills Runs

variable {zone : Zone}

/-- The book of an account and its retained ledger. -/
def Account.books (account : Account) : Book × LedgerTables := (account.book, account.ledger)

/-- Only what supervision writes differs: settings, activity, clock, orders, log,
reconciliations and intakes. -/
def Supervised (before after : Account) : Prop :=
  after = { before with
    settings := after.settings
    active := after.active
    updatedAt := after.updatedAt
    orders := after.orders
    log := after.log
    reconciliations := after.reconciliations
    intakes := after.intakes }

namespace Supervised

theorem refl (account : Account) : Supervised account account := rfl

theorem trans {first second third : Account} (earlier : Supervised first second)
    (later : Supervised second third) : Supervised first third := by
  unfold Supervised at *
  rw [later, earlier]

theorem books {before after : Account} (same : Supervised before after) :
    after.books = before.books := by
  rw [same]
  rfl

theorem equity {before after : Account} (same : Supervised before after) :
    after.equity = before.equity := by
  rw [same]

end Supervised

variable {account : Account}

theorem haltAccount_supervised {next : Account} {reason : Reason} {now : Int}
    (halted : haltAccount account reason now = .ok next) : Supervised account next := by
  unfold haltAccount at halted
  split at halted
  · cases halted
  all_goals
    cases halted
    rfl

theorem persistMismatch_supervised (world : World zone) (account : Account)
    (sessionDate : Option Int) :
    Supervised account (persistMismatch world account sessionDate) := by
  unfold persistMismatch
  dsimp only
  split
  · rename_i halted
    refine Supervised.trans ?_ (haltAccount_supervised halted)
    rfl
  · rfl

variable {world : World zone}

theorem haltCheck_supervised {next : Account} {sessionDate : Int}
    (checked : haltCheck world account sessionDate = .ok next) : Supervised account next := by
  rcases haltCheck_cases checked with rfl | rfl | ⟨reason, halted⟩
  · exact .refl _
  · rfl
  · refine Supervised.trans ?_ (haltAccount_supervised halted)
    rfl

theorem checkMaintenance_supervised {next : Account} {day : Int}
    (checked : checkMaintenance world account day = .ok next) : Supervised account next := by
  unfold checkMaintenance at checked
  split at checked
  · obtain ⟨state, _, checked⟩ := bind_ok.mp checked
    dsimp only at checked
    split at checked
    · cases checked
      rfl
    · cases checked
      refine foldl_invariant (Supervised account) ?_ rfl
      intro row _ state same
      split
      · exact same
      · exact same.trans rfl
  · cases checked
    rfl

theorem queueBuyIns_supervised (world : World zone) (account : Account) (day : Int) :
    Supervised account (queueBuyIns world account day) := by
  unfold queueBuyIns
  split
  · refine foldl_invariant (Supervised account) ?_ rfl
    intro row _ state same
    split
    · exact same
    · exact same.trans rfl
  · rfl

theorem finalizeRetirement_supervised (world : World zone) (account : Account) :
    Supervised account (finalizeRetirement world account) := by
  unfold finalizeRetirement
  split <;> rfl

theorem finishFold_supervised {next : Account}
    (finished : finishFold world account = .ok next) : Supervised account next := by
  obtain ⟨_, _, finished⟩ := bind_ok.mp finished
  split at finished
  · cases finished
    exact finalizeRetirement_supervised world account
  · obtain ⟨checked, halts, finished⟩ := bind_ok.mp finished
    obtain ⟨maintained, reductions, finished⟩ := bind_ok.mp finished
    cases finished
    refine ((haltCheck_supervised halts).trans (checkMaintenance_supervised reductions)).trans
      (Supervised.trans ?_ (finalizeRetirement_supervised world _))
    split
    · exact queueBuyIns_supervised world maintained _
    · exact .refl maintained

theorem cancel_supervised (world : World zone) (account : Account) (id : OrderId) :
    Supervised account (cancel world account id) := by
  unfold cancel
  split
  · rfl
  · split <;> rfl

theorem halt_supervised (world : World zone) (account : Account) :
    Supervised account (halt world account) := by
  unfold halt
  split
  · exact persistMismatch_supervised world account none
  · split
    · rename_i halted
      exact haltAccount_supervised halted
    · rfl

theorem resume_supervised (world : World zone) (account : Account) (authorised : Bool) :
    Supervised account (resume world account authorised) := by
  unfold resume
  split
  · rfl
  · split
    · exact persistMismatch_supervised world account none
    · split <;> rfl

theorem retire_supervised (world : World zone) (account : Account) :
    Supervised account (retire world account) := by
  have queued : Supervised account (queueLiquidation world (cancelOpenings account world.now)) := by
    refine foldl_invariant (Supervised account) ?_ rfl
    intro row _ state same
    exact same.trans rfl
  unfold retire
  split
  · rfl
  · rfl
  all_goals
    dsimp only
    split
    · exact queued.trans rfl
    · exact queued.trans rfl

theorem reconcile_supervised (world : World zone) (account : Account) (sessionDate : Int)
    (evidence : Evidence) : Supervised account (reconcile world account sessionDate evidence) := by
  unfold reconcile
  split
  · rfl
  · dsimp only
    split
    · split
      · rename_i halted
        refine Supervised.trans ?_ (haltAccount_supervised halted)
        rfl
      · rfl
    · rfl

theorem verifyAccount_supervised (world : World zone) (account : Account)
    (sessionDate : Option Int) : Supervised account (verifyAccount world account sessionDate) := by
  unfold verifyAccount
  split
  · rfl
  · exact persistMismatch_supervised world account sessionDate

/-- An intake that succeeds replays a receipt or queues one order. -/
theorem submitIntent_ok {next : Account} {intent : Intent}
    {receipt : Receipt} (accepted : submitIntent world account intent = .ok (next, receipt)) :
    (next = account ∧ ∃ id, receipt = .replayed id) ∨
    ∃ (valid : validIntent zone account intent world.now = true) (parent : Option OrderId),
      intent.executable = true ∧ contingentParent account intent = .ok parent ∧
      capacity world account intent parent = .ok () ∧
      next = { account with
        orders := account.orders.insert (nextOrderId world.orderSequence account.orders)
          (intentOrder intent parent world.now (validIntent_limited valid))
        intakes := account.intakes.insert intent.intentId
          ⟨nextOrderId world.orderSequence account.orders, intent⟩
        active := true
        settings := { account.settings with status := .active } } := by
  unfold submitIntent at accepted
  split at accepted
  · split at accepted
    · cases accepted
      exact .inl ⟨rfl, _, rfl⟩
    · cases accepted
  · split at accepted
    · cases accepted
    · split at accepted
      · rename_i valid
        split at accepted
        · cases accepted
        · split at accepted
          · cases accepted
          · rename_i executable
            obtain ⟨parent, contingent, accepted⟩ := bind_ok.mp accepted
            obtain ⟨_, admitted, accepted⟩ := bind_ok.mp accepted
            cases accepted
            exact .inr ⟨valid, parent, by simpa using executable, contingent, admitted, rfl⟩
      · cases accepted

theorem submit_supervised (world : World zone) (account : Account) (intent : Intent) :
    Supervised account (submit world account intent) := by
  unfold submit
  split
  · rename_i accepted receipt submitted
    rcases submitIntent_ok submitted with ⟨rfl, _⟩ | ⟨_, _, _, _, _, rfl⟩
    · rfl
    · rfl
  · rfl

theorem recordSettlement_ok {terms : Terms} {next : Account}
    (recorded : recordSettlement world terms account = .ok next) :
    account.ledger.settlements.lookup (terms.ticker, terms.effective) = none ∧
    next = { account with
      ledger := { account.ledger with
        settlements := account.ledger.settlements.insert (terms.ticker, terms.effective)
          ⟨terms.kind, (account.book.position terms.ticker).qty, terms.price, terms.intoTicker,
            terms.ratio, world.now⟩ } } := by
  unfold recordSettlement at recorded
  split at recorded
  · cases recorded
  · rename_i fresh
    cases recorded
    exact ⟨by simpa using fresh, rfl⟩

theorem cancelSettled_supervised (world : World zone) (terms : Terms) (planned : List OrderId)
    (account : Account) : Supervised account (cancelSettled world terms planned account) := by
  unfold cancelSettled
  split <;> rfl

/-- Close-outs leave the book and every table but the settlements alone. -/
theorem closeOutDelisted_ledger {day : Int} {next : Account}
    (closed : closeOutDelisted world day account = .ok next) :
    next.book = account.book ∧ next.ledger =
      { account.ledger with settlements := next.ledger.settlements } := by
  refine foldlM_invariant (fun state => state.book = account.book ∧ state.ledger =
    { account.ledger with settlements := state.ledger.settlements }) ?_ ⟨rfl, rfl⟩ closed
  intro terms _ state after same done
  unfold closeOut at done
  split at done
  · obtain ⟨recorded, booked, done⟩ := bind_ok.mp done
    cases done
    have swept := (cancelSettled_supervised world terms (pendingOf state terms.ticker) recorded).books
    simp only [Account.books, Prod.mk.injEq] at swept
    rw [swept.1, swept.2, (recordSettlement_ok booked).2]
    refine ⟨same.1, ?_⟩
    dsimp only
    rw [same.2]
  · cases done
    exact same

/-- A call that folds nothing is supervision. -/
theorem step_supervised (account : Account) (operation : Operation zone)
    (idle : ∀ world day, operation ≠ .settle world day)
    (unsettled : ∀ world terms, operation ≠ .settlement world terms) :
    Supervised account (step account operation) := by
  cases operation with
  | submit world intent => exact submit_supervised world account intent
  | cancel world id => exact cancel_supervised world account id
  | settle world day => exact absurd rfl (idle world day)
  | halt world => exact halt_supervised world account
  | resume world authorised => exact resume_supervised world account authorised
  | retire world => exact retire_supervised world account
  | finalizeRetirement world => exact finalizeRetirement_supervised world account
  | reconcile world sessionDate evidence => exact reconcile_supervised world account sessionDate evidence
  | verify world sessionDate => exact verifyAccount_supervised world account sessionDate
  | settlement world terms => exact absurd rfl (unsettled world terms)
  | reconcileSettled ticker => rfl

end TradingEngine.Accounts
