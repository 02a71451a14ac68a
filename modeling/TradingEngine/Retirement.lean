import TradingEngine.Folding

/-!
# Retirement

A requested retirement is written to the lifecycle log and never removed. Every
call other than an intake, a resumption or a retirement keeps the status or
moves it to halted or retired. So an account on its way out comes back only when
it is first halted, by the owner, a mismatch or a loss, and then resumed: a
resumption looks at the status alone and not at the log.
-/

namespace TradingEngine.Accounts

open KeyedTables OrderTypes Nyse Ledger Costs Fills Runs

variable {zone : Zone}

/-- Entries of the log that a retirement writes. -/
def AccountEvent.retires : AccountEvent → Bool
  | .retirementRequested _ | .retired _ => true
  | .halted _ _ | .resumed _ _ => false

/-- Whether a retirement was ever requested. -/
def Account.retirementLogged (account : Account) : Bool := account.log.any AccountEvent.retires

/-- The status is kept or becomes halted or, with a log entry, retired. The other
settings stay and the log only grows. -/
structure WindsDown (before after : Account) : Prop where
  settings : after.settings = { before.settings with status := after.settings.status }
  status : after.settings.status = before.settings.status ∨ after.settings.status = .halted ∨
    (after.settings.status = .retired ∧ after.retirementLogged = true)
  log : before.log <+: after.log

theorem retirementLogged_of_prefix {before after : Account} (grown : before.log <+: after.log)
    (logged : before.retirementLogged = true) : after.retirementLogged = true := by
  obtain ⟨entry, listed, retires⟩ := List.any_eq_true.mp logged
  exact List.any_eq_true.mpr ⟨entry, grown.mem listed, retires⟩

namespace WindsDown

theorem refl (account : Account) : WindsDown account account :=
  ⟨rfl, .inl rfl, List.prefix_rfl⟩

theorem trans {first second third : Account} (earlier : WindsDown first second)
    (later : WindsDown second third) : WindsDown first third := by
  refine ⟨by rw [later.settings, earlier.settings], ?_, earlier.log.trans later.log⟩
  rcases later.status with same | moved
  · rw [same]
    rcases earlier.status with kept | halted | ⟨retired, logged⟩
    · exact .inl kept
    · exact .inr (.inl halted)
    · exact .inr (.inr ⟨retired, retirementLogged_of_prefix later.log logged⟩)
  · exact .inr moved

theorem of_administration {before after : Account}
    (same : after.administration = before.administration) : WindsDown before after := by
  have status : after.settings = before.settings := congrArg Administration.settings same
  have log : after.log = before.log := congrArg Administration.log same
  exact ⟨by rw [status], .inl (by rw [status]), by rw [log]⟩

end WindsDown

variable {account : Account}

theorem haltAccount_windsDown {next : Account} {reason : Reason} {now : Int}
    (halted : haltAccount account reason now = .ok next) : WindsDown account next := by
  unfold haltAccount at halted
  split at halted
  · cases halted
  · cases halted
    exact .refl account
  · cases halted
    exact ⟨rfl, .inr (.inl rfl), List.prefix_append _ _⟩
  · cases halted
    exact ⟨rfl, .inr (.inl rfl), List.prefix_append _ _⟩
  · cases halted
    exact ⟨rfl, .inr (.inl rfl), List.prefix_append _ _⟩

theorem persistMismatch_windsDown (world : World zone) (account : Account)
    (sessionDate : Option Int) : WindsDown account (persistMismatch world account sessionDate) := by
  unfold persistMismatch
  dsimp only
  split
  · rename_i halted
    obtain ⟨settings, status, log⟩ := haltAccount_windsDown halted
    exact ⟨settings, status, log⟩
  · exact .refl account

variable {world : World zone}

/-- A halt check leaves the account, notes its time, or halts it. -/
theorem haltCheck_cases {next : Account} {sessionDate : Int}
    (checked : haltCheck world account sessionDate = .ok next) :
    next = account ∨ next = { account with updatedAt := world.now } ∨
      ∃ reason, haltAccount { account with updatedAt := world.now } reason world.now = .ok next := by
  unfold haltCheck at checked
  split at checked
  · cases checked
    exact .inl rfl
  · split at checked
    · cases checked
    · obtain ⟨reason, _, checked⟩ := bind_ok.mp checked
      cases reason with
      | none =>
        cases checked
        exact .inr (.inl rfl)
      | some reason => exact .inr (.inr ⟨reason, checked⟩)

theorem haltCheck_windsDown {next : Account} {sessionDate : Int}
    (checked : haltCheck world account sessionDate = .ok next) : WindsDown account next := by
  rcases haltCheck_cases checked with rfl | rfl | ⟨reason, halted⟩
  · exact .refl _
  · exact ⟨rfl, .inl rfl, List.prefix_rfl⟩
  · obtain ⟨settings, status, log⟩ := haltAccount_windsDown halted
    exact ⟨settings, status, log⟩

theorem checkMaintenance_administration {next : Account} {day : Int}
    (checked : checkMaintenance world account day = .ok next) :
    next.administration = account.administration := by
  unfold checkMaintenance at checked
  split at checked
  · obtain ⟨state, _, checked⟩ := bind_ok.mp checked
    dsimp only at checked
    split at checked
    · cases checked
      rfl
    · cases checked
      refine foldl_invariant (fun state : Account => state.administration = account.administration)
        ?_ rfl
      intro row _ state same
      split
      · exact same
      · exact same
  · cases checked
    rfl

theorem queueBuyIns_administration (world : World zone) (account : Account) (day : Int) :
    (queueBuyIns world account day).administration = account.administration := by
  unfold queueBuyIns
  split
  · refine foldl_invariant (fun state : Account => state.administration = account.administration)
      ?_ rfl
    intro row _ state same
    split
    · exact same
    · exact same
  · rfl

theorem finalizeRetirement_windsDown (world : World zone) (account : Account) :
    WindsDown account (finalizeRetirement world account) := by
  unfold finalizeRetirement
  split
  · exact ⟨rfl, .inr (.inr ⟨rfl, by simp [Account.retirementLogged, AccountEvent.retires]⟩),
      List.prefix_append _ _⟩
  · exact .refl account

theorem finishFold_windsDown {next : Account}
    (finished : finishFold world account = .ok next) : WindsDown account next := by
  obtain ⟨_, _, finished⟩ := bind_ok.mp finished
  split at finished
  · cases finished
    exact finalizeRetirement_windsDown world account
  · obtain ⟨checked, halts, finished⟩ := bind_ok.mp finished
    obtain ⟨maintained, reductions, finished⟩ := bind_ok.mp finished
    cases finished
    refine (haltCheck_windsDown halts).trans
      ((WindsDown.of_administration (checkMaintenance_administration reductions)).trans ?_)
    refine WindsDown.trans (.of_administration ?_) (finalizeRetirement_windsDown world _)
    split
    · exact queueBuyIns_administration world maintained _
    · rfl

theorem cancelSettled_administration (world : World zone) (terms : Terms)
    (planned : List OrderId) (account : Account) :
    (cancelSettled world terms planned account).administration = account.administration := by
  unfold cancelSettled
  split <;> rfl

theorem recordSettlement_administration {terms : Terms}
    {next : Account} (recorded : recordSettlement world terms account = .ok next) :
    next.administration = account.administration := by
  unfold recordSettlement at recorded
  split at recorded
  · cases recorded
  · cases recorded
    rfl

theorem closeOutDelisted_administration {day : Int} {next : Account}
    (closed : closeOutDelisted world day account = .ok next) :
    next.administration = account.administration := by
  refine foldlM_invariant (fun state => state.administration = account.administration) ?_ rfl closed
  intro terms _ state after same done
  unfold closeOut at done
  split at done
  · obtain ⟨recorded, booked, done⟩ := bind_ok.mp done
    cases done
    rw [cancelSettled_administration, recordSettlement_administration booked, same]
  · cases done
    exact same

theorem foldAccount_windsDown {next : Account} {stop : Int}
    {mutation : Account → Except AccountError Account}
    (neutral : ∀ changed, mutation account = .ok changed →
      changed.administration = account.administration)
    (folded : foldAccount world account stop mutation = .ok next) : WindsDown account next := by
  obtain ⟨_, _, folded⟩ := bind_ok.mp folded
  obtain ⟨changed, mutated, folded⟩ := bind_ok.mp folded
  obtain ⟨looped, loop, finished⟩ := bind_ok.mp folded
  exact (WindsDown.of_administration (neutral changed mutated)).trans
    ((WindsDown.of_administration (foldLoop_administration loop)).trans
      (finishFold_windsDown finished))

theorem settleSession_windsDown (world : World zone) (account : Account) (day : Int) :
    WindsDown account (settleSession world account day) := by
  unfold settleSession
  split
  · split
    · rename_i folded
      exact foldAccount_windsDown (fun changed => closeOutDelisted_administration) folded
    · exact persistMismatch_windsDown world account none
  · exact .refl account

theorem bookSettlement_windsDown (world : World zone) (account : Account) (terms : Terms) :
    WindsDown account (bookSettlement world account terms) := by
  unfold bookSettlement
  split
  · split
    · rename_i folded
      exact (foldAccount_windsDown (fun changed => recordSettlement_administration) folded).trans
        (.of_administration (cancelSettled_administration world terms _ _))
    · exact persistMismatch_windsDown world account none
  · exact .refl account

theorem cancel_windsDown (world : World zone) (account : Account) (id : OrderId) :
    WindsDown account (cancel world account id) := by
  unfold cancel
  split
  · exact .refl account
  · split
    · exact ⟨rfl, .inl rfl, List.prefix_rfl⟩
    · exact .refl account

theorem halt_windsDown (world : World zone) (account : Account) :
    WindsDown account (halt world account) := by
  unfold halt
  split
  · exact persistMismatch_windsDown world account none
  · split
    · rename_i halted
      exact haltAccount_windsDown halted
    · exact .refl account

theorem reconcile_windsDown (world : World zone) (account : Account) (sessionDate : Int)
    (evidence : Evidence) : WindsDown account (reconcile world account sessionDate evidence) := by
  unfold reconcile
  split
  · exact .refl account
  · dsimp only
    split
    · split
      · rename_i halted
        obtain ⟨settings, status, log⟩ := haltAccount_windsDown halted
        exact ⟨settings, status, log⟩
      · exact .refl account
    · exact ⟨rfl, .inl rfl, List.prefix_rfl⟩

theorem verifyAccount_windsDown (world : World zone) (account : Account)
    (sessionDate : Option Int) : WindsDown account (verifyAccount world account sessionDate) := by
  unfold verifyAccount
  split
  · exact .refl account
  · exact persistMismatch_windsDown world account sessionDate

/-- An account on its way out: stopped, with its retirement in the log. -/
structure Leaving (account : Account) : Prop where
  stopped : account.settings.status = .halted ∨ account.settings.status = .retiring ∨
    account.settings.status = .retired
  recorded : account.retirementLogged = true

theorem Leaving.of_windsDown {before after : Account} (leaving : Leaving before)
    (down : WindsDown before after) : Leaving after := by
  constructor
  · rcases down.status with same | halted | ⟨retired, _⟩
    · rw [same]
      exact leaving.stopped
    · exact .inl halted
    · exact .inr (.inr retired)
  · exact retirementLogged_of_prefix down.log leaving.recorded

/-- Nothing is taken in for an account on its way out. -/
theorem Leaving.refuses (leaving : Leaving account) (world : World zone)
    (intent : Intent) (next : Account) (id : OrderId) :
    submitIntent world account intent ≠ .ok (next, .queued id) := by
  intro accepted
  unfold submitIntent at accepted
  split at accepted
  · split at accepted <;> simp at accepted
  · split at accepted
    · cases accepted
    · split at accepted
      · have closed : account.settings.status ≠ .inactive ∧ account.settings.status ≠ .active := by
          rcases leaving.stopped with status | status | status <;> simp [status]
        rw [if_pos closed] at accepted
        cases accepted
      · cases accepted

/-- What an intake does: nothing, or a new order for an account that trades. -/
theorem submit_cases (world : World zone) (account : Account) (intent : Intent) :
    submit world account intent = account ∨
      ((account.settings.status = .inactive ∨ account.settings.status = .active) ∧
        (submit world account intent).settings.status = .active) := by
  unfold submit
  split
  · rename_i accepted receipt submitted
    unfold submitIntent at submitted
    split at submitted
    · split at submitted
      · cases submitted
        exact .inl rfl
      · cases submitted
    · split at submitted
      · cases submitted
      · split at submitted
        · split at submitted
          · cases submitted
          · rename_i trading
            split at submitted
            · cases submitted
            · obtain ⟨_, _, submitted⟩ := bind_ok.mp submitted
              obtain ⟨_, _, submitted⟩ := bind_ok.mp submitted
              cases submitted
              refine .inr ⟨?_, rfl⟩
              by_contra closed
              exact trading (not_or.mp closed)
        · cases submitted
  · exact .inl rfl

theorem Leaving.submit (leaving : Leaving account) (world : World zone)
    (intent : Intent) : Leaving (submit world account intent) := by
  rcases submit_cases world account intent with same | ⟨trading, _⟩
  · exact same.symm ▸ leaving
  · rcases leaving.stopped with status | status | status <;> simp [status] at trading

/-- A status of retirement is backed by a log entry. -/
def Logged (account : Account) : Prop :=
  account.settings.status = .retiring ∨ account.settings.status = .retired →
    account.retirementLogged = true

theorem Logged.of_windsDown {before after : Account} (logged : Logged before)
    (down : WindsDown before after) : Logged after := by
  intro leaving
  rcases down.status with same | halted | ⟨_, entry⟩
  · exact retirementLogged_of_prefix down.log (logged (same ▸ leaving))
  · simp [halted] at leaving
  · exact entry

/-- A requested retirement leaves the account on its way out. -/
theorem retire_leaving (world : World zone) (logged : Logged account) :
    Leaving (retire world account) := by
  unfold retire
  split
  · rename_i status
    exact ⟨.inr (.inr status), logged (.inr status)⟩
  · rename_i status
    exact ⟨.inr (.inl status), logged (.inl status)⟩
  all_goals
    dsimp only
    split
    · exact ⟨.inr (.inr rfl), by simp [Account.retirementLogged, AccountEvent.retires]⟩
    · exact ⟨.inr (.inl rfl), by simp [Account.retirementLogged, AccountEvent.retires]⟩

theorem resume_cases (world : World zone) (account : Account) (authorised : Bool) :
    WindsDown account (resume world account authorised) ∨
      (account.settings.status = .halted ∧
        (resume world account authorised).settings.status = .active) := by
  unfold resume
  split
  · exact .inl (.refl account)
  · split
    · exact .inl (persistMismatch_windsDown world account none)
    · split
      · exact .inl (.refl account)
      · rename_i allowed
        push Not at allowed
        exact .inr ⟨allowed.2, rfl⟩

theorem Logged.step (logged : Logged account) (operation : Operation zone) :
    Logged (step account operation) := by
  cases operation with
  | submit world intent =>
    rcases submit_cases world account intent with same | ⟨_, active⟩
    · change Logged (submit world account intent)
      rw [same]
      exact logged
    · intro leaving
      simp [Accounts.step, active] at leaving
  | cancel world id => exact logged.of_windsDown (cancel_windsDown world account id)
  | settle world day => exact logged.of_windsDown (settleSession_windsDown world account day)
  | halt world => exact logged.of_windsDown (halt_windsDown world account)
  | resume world authorised =>
    rcases resume_cases world account authorised with down | ⟨_, active⟩
    · exact logged.of_windsDown down
    · intro leaving
      simp [Accounts.step, active] at leaving
  | retire world => exact fun _ => (retire_leaving world logged).recorded
  | finalizeRetirement world =>
    exact logged.of_windsDown (finalizeRetirement_windsDown world account)
  | reconcile world sessionDate evidence =>
    exact logged.of_windsDown (reconcile_windsDown world account sessionDate evidence)
  | verify world sessionDate =>
    exact logged.of_windsDown (verifyAccount_windsDown world account sessionDate)
  | settlement world terms =>
    exact logged.of_windsDown (bookSettlement_windsDown world account terms)
  | reconcileSettled ticker => exact logged

/-- A call that does not resume an account whose retirement was requested. -/
def SparesRetired (account : Account) : Operation zone → Prop
  | .resume _ _ => ¬ (account.settings.status = .halted ∧ account.retirementLogged = true)
  | _ => True

instance (account : Account) : ∀ operation : Operation zone,
    Decidable (SparesRetired account operation)
  | .resume _ _ => inferInstanceAs
      (Decidable (¬ (account.settings.status = .halted ∧ account.retirementLogged = true)))
  | .submit _ _ | .cancel _ _ | .settle _ _ | .halt _ | .retire _ | .finalizeRetirement _
  | .reconcile _ _ _ | .verify _ _ | .settlement _ _ | .reconcileSettled _ =>
    inferInstanceAs (Decidable True)

theorem Leaving.step {operation : Operation zone} (leaving : Leaving account)
    (spares : SparesRetired account operation) : Leaving (step account operation) := by
  cases operation with
  | submit world intent => exact leaving.submit world intent
  | cancel world id => exact leaving.of_windsDown (cancel_windsDown world account id)
  | settle world day => exact leaving.of_windsDown (settleSession_windsDown world account day)
  | halt world => exact leaving.of_windsDown (halt_windsDown world account)
  | resume world authorised =>
    rcases resume_cases world account authorised with down | ⟨halted, _⟩
    · exact leaving.of_windsDown down
    · exact absurd ⟨halted, leaving.recorded⟩ spares
  | retire world => exact retire_leaving world fun _ => leaving.recorded
  | finalizeRetirement world =>
    exact leaving.of_windsDown (finalizeRetirement_windsDown world account)
  | reconcile world sessionDate evidence =>
    exact leaving.of_windsDown (reconcile_windsDown world account sessionDate evidence)
  | verify world sessionDate =>
    exact leaving.of_windsDown (verifyAccount_windsDown world account sessionDate)
  | settlement world terms =>
    exact leaving.of_windsDown (bookSettlement_windsDown world account terms)
  | reconcileSettled ticker => exact ⟨leaving.stopped, leaving.recorded⟩

theorem createAccount_logged {spec : Spec} {capital : ℚ} {source : PriceSource}
    {rule : DayTradeRule} {allowShort : Bool} {now : Int}
    (created : createAccount zone spec capital source rule allowShort now = .ok account) :
    Logged account := by
  rw [createAccount_ok created]
  simp [Logged, newAccount]

/-- Once retirement was requested, an account that nobody resumes out of a halt never
becomes active again and takes in no order: whatever ran before, and whatever
submits, cancellations, folds, halts and reconciliations follow. -/
theorem retirement_irrevocable {spec : Spec} {capital : ℚ} {source : PriceSource}
    {rule : DayTradeRule} {allowShort : Bool} {now : Int} {account : Account}
    (created : createAccount zone spec capital source rule allowShort now = .ok account)
    (before after : List (Operation zone)) (world : World zone)
    (spared : Admissible step SparesRetired (retire world (before.foldl step account)) after) :
    ∀ reached ∈ states step (retire world (before.foldl step account)) after,
      reached.settings.status ≠ .active ∧
      ∀ (world : World zone) intent next id,
        submitIntent world reached intent ≠ .ok (next, .queued id) := by
  have logged : Logged (before.foldl step account) :=
    foldl_invariant Logged (fun operation _ _ holds => holds.step operation)
      (createAccount_logged created)
  have leaving := invariant_of_steps (fun _ _ => Leaving.step) (retire_leaving world logged) spared
  intro reached member
  refine ⟨?_, (leaving reached member).refuses⟩
  rcases (leaving reached member).stopped with status | status | status <;> simp [status]

/-- A Monday's order and the Tuesday on which it fills. -/
def heldOverTuesday : List (Operation daylightTime) :=
  [.submit (sampleWorld 739768 22) (sampleIntent "entry" "SYM" .buy 100 739768),
    .settle (sampleWorld 739769 22) 739769]

theorem halted_retirement_irrevocable :
    (retire (sampleWorld 739769 23) (heldOverTuesday.foldl step sampleAccount)).settings.status =
      .retiring ∧
    ∀ reached ∈ states step
        (retire (sampleWorld 739769 23) (heldOverTuesday.foldl step sampleAccount))
        [.halt (sampleWorld 739769 23), .settle (sampleWorld 739770 22) 739770],
      reached.settings.status ≠ .active ∧
      ∀ (world : World daylightTime) intent next id,
        submitIntent world reached intent ≠ .ok (next, .queued id) :=
  ⟨by decide +kernel,
    retirement_irrevocable sampleAccount_created _ _ _ (by decide +kernel)⟩

/-- A retiring account that is halted can be resumed: it becomes active and takes in a
new order. -/
theorem retirement_revoked :
    (retire (sampleWorld 739769 23) (heldOverTuesday.foldl step sampleAccount)).settings.status =
      .retiring ∧
    (¬ ∀ reached ∈ states step
        (retire (sampleWorld 739769 23) (heldOverTuesday.foldl step sampleAccount))
        [.halt (sampleWorld 739769 23), .resume (sampleWorld 739769 23) true],
      reached.settings.status ≠ .active) ∧
    ((submitIntent (sampleWorld 739769 23)
      ([.halt (sampleWorld 739769 23), .resume (sampleWorld 739769 23) true].foldl step
        (retire (sampleWorld 739769 23) (heldOverTuesday.foldl step sampleAccount)))
      (sampleIntent "again" "SYM" .buy 100 739769)).toOption.map Prod.snd) = some (.queued 3) := by
  refine ⟨by decide +kernel, by decide +kernel, by decide +kernel⟩

end TradingEngine.Accounts
