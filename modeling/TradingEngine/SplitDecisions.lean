import TradingEngine.SplitReconciliation

/-!
# Splits are decided once

A pass of the reconciliation completes exactly when every split that it restates finds
its earlier bars with their opens inside their ranges, volumes that stay in range, and
ledgers that replay. Ingestion admits a bar whose open is outside its range while the
bar is provisional; such a bar, if it is never fetched again, makes every pass raise at
the first split that reaches it. A pass that completes leaves nothing to a second one.
-/

namespace TradingEngine.PriceStore

open KeyedTables Ledger Runs

variable {world : World} {store : Store}

section Rounding

theorem roundHalfEven_le_iff {value : ℚ} {bound : Int} (odd : bound % 2 = 1) :
    roundHalfEven value ≤ bound ↔ value < bound + 1 / 2 := by
  have low := Int.floor_le value
  have high := Int.lt_floor_add_one value
  unfold roundHalfEven
  split
  · rename_i below
    constructor
    · intro bounded
      have cast : (⌊value⌋ : ℚ) ≤ bound := by exact_mod_cast bounded
      linarith
    · intro small
      have cast : (⌊value⌋ : ℚ) < (bound + 1 : Int) := by
        push_cast
        linarith
      exact Int.lt_add_one_iff.mp (by exact_mod_cast cast)
  · split
    · constructor
      · intro bounded
        have cast : ((⌊value⌋ + 1 : Int) : ℚ) ≤ bound := by exact_mod_cast bounded
        push_cast at cast
        linarith
      · intro small
        have cast : (⌊value⌋ : ℚ) < bound := by linarith
        have whole : ⌊value⌋ < bound := by exact_mod_cast cast
        omega
    · have half : value = ⌊value⌋ + 1 / 2 := by linarith
      have compared : value < bound + 1 / 2 ↔ ⌊value⌋ < bound := by
        constructor
        · intro small
          have cast : (⌊value⌋ : ℚ) < bound := by linarith
          exact_mod_cast cast
        · intro small
          have cast : (⌊value⌋ : ℚ) < bound := by exact_mod_cast small
          linarith
      rw [compared]
      split <;> omega

theorem roundHalfAway_le_iff {value : ℚ} {bound : Int} (nonneg : 0 ≤ value) :
    roundHalfAway value ≤ bound ↔ value < bound + 1 / 2 := by
  rw [roundHalfAway, if_pos nonneg, ← Int.lt_add_one_iff, Int.floor_lt]
  push_cast
  constructor
  · intro small
    linarith
  · intro small
    linarith

theorem roundHalfEven_nonneg {value : ℚ} (nonneg : 0 ≤ value) : 0 ≤ roundHalfEven value := by
  have low : 0 ≤ ⌊value⌋ := Int.floor_nonneg.mpr nonneg
  unfold roundHalfEven
  split
  · exact low
  · split
    · omega
    · split <;> omega

end Rounding

section Bars

/-- The range contains the open and the close, and the volume on the new scale is a BIGINT. -/
def RestatesSoundly (ratio : ℚ) (quote : Quote) : Prop :=
  geometryFaults quote = [] ∧
    ∀ volume, quote.volume = .number volume → volume * ratio < bigint + 1 / 2

theorem bigint_odd : bigint % 2 = 1 := by decide

theorem openInside_restated {figures : Figures} {round : ℚ → Int} {ratio : ℚ} (positive : 0 < ratio) :
    (figures.restated round ratio).OpenInside ↔ figures.OpenInside := by
  simp only [Figures.OpenInside, Figures.restated, div_le_div_iff_of_pos_right positive]

theorem ranged_restated {figures : Figures} {round : ℚ → Int} {ratio : ℚ} (ranged : figures.Ranged)
    (positive : 0 < ratio) (counted : 0 ≤ round (figures.volume * ratio))
    (bounded : round (figures.volume * ratio) ≤ bigint) :
    (figures.restated round ratio).Ranged where
  opening := div_pos ranged.opening positive
  low := div_pos ranged.low positive
  lowClose := (div_le_div_iff_of_pos_right positive).mpr ranged.lowClose
  closeHigh := (div_le_div_iff_of_pos_right positive).mpr ranged.closeHigh
  volume := counted
  bounded := bounded

/-- What a sound restatement demands of usable figures. -/
theorem restatesSoundly_iff {figures : Figures} {ratio : ℚ} (ranged : figures.Ranged) :
    RestatesSoundly ratio figures.quote ↔
      figures.OpenInside ∧ figures.volume * ratio < bigint + 1 / 2 := by
  rw [RestatesSoundly, geometryFaults_eq_nil ranged.opening ranged.high ranged.low ranged.close]
  constructor
  · rintro ⟨⟨-, inside⟩, fits⟩
    exact ⟨inside, fits _ rfl⟩
  · rintro ⟨inside, fits⟩
    refine ⟨⟨⟨ranged.lowClose, ranged.closeHigh⟩, inside⟩, ?_⟩
    intro volume same
    cases same
    exact fits

/-- The validator admits a fit bar on a new scale exactly when its open is in its range and
its volume fits. -/
theorem faults_eq_nil_iff {key : Key} {row : Row} {ratio : ℚ} (fit : Fit world key row)
    (positive : 0 < ratio) :
    observationReasons world
        (observe key { row with quote := restatedQuote roundHalfEven ratio row.quote }) = [] ↔
      RestatesSoundly ratio row.quote := by
  obtain ⟨placed, figures, ranged, same, -⟩ := fit
  have counted : (0 : ℚ) ≤ figures.volume * ratio :=
    mul_nonneg (by exact_mod_cast ranged.volume) positive.le
  rw [observationReasons_eq_nil, same, restatesSoundly_iff ranged, restatedQuote_figures]
  constructor
  · rintro ⟨-, restated, restatedRanged, inside, candidate⟩
    obtain rfl := Figures.quote_injective candidate
    exact ⟨(openInside_restated positive).mp inside,
      (roundHalfEven_le_iff bigint_odd).mp restatedRanged.bounded⟩
  · rintro ⟨inside, fits⟩
    refine ⟨placed, figures.restated roundHalfEven ratio, ?_, (openInside_restated positive).mpr inside,
      rfl⟩
    exact ranged_restated ranged positive (roundHalfEven_nonneg counted)
      ((roundHalfEven_le_iff bigint_odd).mpr fits)

/-- SQL finds the volume of such a bar in range. -/
theorem outOfRange_eq_false {key : Key} {row : Row} {ratio : ℚ} (fit : Fit world key row)
    (positive : 0 < ratio) (sound : RestatesSoundly ratio row.quote) :
    outOfRange (restatedQuote roundHalfAway ratio row.quote).volume = false := by
  obtain ⟨-, figures, ranged, same, -⟩ := fit
  have counted : (0 : ℚ) ≤ figures.volume * ratio :=
    mul_nonneg (by exact_mod_cast ranged.volume) positive.le
  rw [same] at sound ⊢
  have bounded := (roundHalfAway_le_iff counted).mpr ((restatesSoundly_iff ranged).mp sound).2
  have nonneg := roundHalfAway_nonneg counted
  rw [restatedQuote_figures]
  simp only [Figures.restated, Figures.quote, outOfRange, Bool.or_eq_false_iff,
    decide_eq_false_iff_not, not_lt]
  constructor
  · exact_mod_cast bounded
  · have low : (0 : ℚ) ≤ roundHalfAway (figures.volume * ratio) := by exact_mod_cast nonneg
    linarith

end Bars

section Portfolios

/-- A portfolio that neither orders, fills nor acquires an instrument. -/
def Portfolio.Spares (portfolio : Portfolio) (ticker : String) : Prop :=
  portfolio.ledger.Spares ticker ∧ ∀ order ∈ portfolio.orders, order.ticker ≠ ticker

/-- No simulated book touches a ticker. -/
def Spared (store : Store) (ticker : String) : Prop :=
  ∀ portfolio ∈ store.portfolios, portfolio.reconciled = true → portfolio.Spares ticker

/-- The simulator's books replay under the splits decided so far. -/
def Replays (world : World) (store : Store) : Prop :=
  ∀ portfolio ∈ store.portfolios, portfolio.reconciled = true →
    ∃ book, rebuildState world.zone portfolio.settings
      { portfolio.ledger with splits := splitFactors store.adjustments } none = .ok book

/-- A split without a watermark is not among those of the books. -/
theorem lookup_splitFactors {adjustments : Table Key Adjustment} {key : Key}
    (fresh : adjustments.lookup key = none) : (splitFactors adjustments).lookup key = none := by
  have unlisted : ∀ row ∈ adjustments.entries, row.1 ≠ key := by
    rintro row listed rfl
    rw [lookup_of_mem listed] at fresh
    cases fresh
  clear fresh
  unfold splitFactors
  generalize adjustments.entries = rows at unlisted
  induction rows with
  | nil => rfl
  | cons row rest ih =>
    have later := ih fun other listed =>
      unlisted other (List.mem_cons_of_mem _ listed)
    rw [List.foldr_cons]
    split
    · rw [AList.lookup_insert_ne (unlisted row List.mem_cons_self).symm]
      exact later
    · exact later

theorem splitFactors_insert {adjustments : Table Key Adjustment} {key : Key} {row : Adjustment}
    (fresh : adjustments.lookup key = none) (applied : row.outcome = .applied)
    (positive : 0 < row.ratio) :
    splitFactors (adjustments.insert key row) =
      (splitFactors adjustments).insert key ⟨row.ratio, positive⟩ := by
  rw [splitFactors, AList.entries_insert_of_notMem (AList.lookup_eq_none.mp fresh),
    List.foldr_cons, dif_pos ⟨applied, positive⟩]
  rfl

/-- A portfolio replays with one more split of an instrument that it spares exactly when it
replays without. -/
theorem rebuildSimState_ok_iff {portfolio : Portfolio} {adjustments : Table Key Adjustment}
    {key : Key} {row : Adjustment} (exDate : Date) (ratio : ℚ)
    (fresh : adjustments.lookup key = none) (applied : row.outcome = .applied)
    (positive : 0 < row.ratio)
    (spared : portfolio.reconciled = true → portfolio.Spares key.1) :
    (∃ rebuilt, rebuildSimState world (splitFactors (adjustments.insert key row))
      (rescaleOrders key.1 exDate ratio portfolio) = .ok rebuilt) ↔
    (portfolio.reconciled = true → ∃ book, rebuildState world.zone portfolio.settings
      { portfolio.ledger with splits := splitFactors adjustments } none = .ok book) := by
  by_cases kept : portfolio.reconciled = true
  · have same := rebuildState_untouched world.zone portfolio.settings
      (⟨row.ratio, positive⟩ : SplitRatio) (lookup_splitFactors fresh) (spared kept).1
    have rescaled : (rescaleOrders key.1 exDate ratio portfolio).reconciled = true := by
      rw [rescaleOrders, if_pos kept]
      exact kept
    rw [rebuildSimState, if_pos rescaled, splitFactors_insert fresh applied positive]
    simp only [rescaleOrders, if_pos kept, same, map_ok]
    constructor
    · rintro ⟨rebuilt, book, replayed, -⟩ -
      exact ⟨book, replayed⟩
    · intro replays
      obtain ⟨book, replayed⟩ := replays kept
      exact ⟨_, book, replayed, rfl⟩
  · have other : rescaleOrders key.1 exDate ratio portfolio = portfolio := by
      rw [rescaleOrders, if_neg kept]
    rw [other, rebuildSimState, if_neg kept]
    constructor
    · intro _ reconciled
      exact absurd reconciled kept
    · intro _
      exact ⟨portfolio, rfl⟩

/-- A restatement's portfolios replay exactly when they did before. -/
theorem portfolios_ok_iff {now : Instant} {split : Restatement}
    (fresh : store.adjustments.lookup (split.ticker, split.exDate) = none)
    (positive : 0 < split.ratio) (spared : Spared store split.ticker) :
    (∃ portfolios, split.portfolios world now store = .ok portfolios) ↔ Replays world store := by
  have each (portfolio : Portfolio) (listed : portfolio ∈ store.portfolios) :
      (∃ rebuilt, rebuildSimState world (splitFactors (split.adjustments now store))
        (rescaleOrders split.ticker split.exDate split.ratio portfolio) = .ok rebuilt) ↔ _ :=
    rebuildSimState_ok_iff split.exDate split.ratio fresh rfl positive (spared portfolio listed)
  constructor
  · rintro ⟨portfolios, replayed⟩ portfolio listed
    obtain ⟨rebuilt, -, computed⟩ := mapM_value replayed portfolio listed
    exact (each portfolio listed).mp ⟨rebuilt, computed⟩
  · intro replays
    obtain ⟨portfolios, replayed, -⟩ := mapM_ok fun portfolio listed =>
      (each portfolio listed).mpr (replays portfolio listed)
    exact ⟨portfolios, replayed⟩

end Portfolios

section Decisions

/-- The earlier bars of a split that is restated have sound restatements, and the books
replay. -/
def Restatable (world : World) (store : Store) (split : Key × ℚ) : Prop :=
  ∀ breakDate observed newScaleDates,
    adjudicate store split.1.1 split.1.2 split.2 = .appliedPending breakDate observed newScaleDates →
    (∀ bar ∈ store.prices.entries,
      (restatementOf split breakDate newScaleDates).reaches bar.1 = true →
        RestatesSoundly split.2 bar.2.quote) ∧ Replays world store

/-- Only a split with a positive ratio is restated. -/
theorem ratio_pos_of_appliedPending {ticker : String} {exDate breakDate : Date} {ratio observed : ℚ}
    {newScaleDates : List Date}
    (verdict : adjudicate store ticker exDate ratio =
      .appliedPending breakDate observed newScaleDates) : 0 < ratio := by
  by_contra nonpositive
  unfold adjudicate at verdict
  dsimp only at verdict
  rw [if_pos (not_lt.mp nonpositive)] at verdict
  cases verdict

/-- What is known of a store before a split without a watermark is decided. -/
structure Undecided (world : World) (store : Store) (split : Key × ℚ) : Prop where
  fit : AllFit world store.prices
  fresh : store.adjustments.lookup split.1 = none
  spared : Spared store split.1.1

variable {now : Instant}

/-- A split is decided exactly when it is restatable. -/
theorem decideSplit_ok_iff {split : Key × ℚ} (undecided : Undecided world store split) :
    (∃ next, decideSplit world now split store = .ok next) ↔ Restatable world store split := by
  obtain ⟨fit, fresh, spared⟩ := undecided
  unfold decideSplit Restatable
  cases verdict : adjudicate store split.1.1 split.1.2 split.2 with
  | recorded outcome breakDate observed =>
    constructor
    · intro _ breakDate observed newScaleDates other
      cases other
    · intro _
      exact ⟨_, rfl⟩
  | appliedPending breakDate observed newScaleDates =>
    have positive := ratio_pos_of_appliedPending verdict
    have replays : (∃ portfolios, (restatementOf split breakDate newScaleDates).portfolios world now
        store = .ok portfolios) ↔ Replays world store := portfolios_ok_iff fresh positive spared
    simp only [restate_ok_iff, Verdict.appliedPending.injEq]
    constructor
    · rintro ⟨next, sound, portfolios, replayed, -⟩ _ _ _ ⟨rfl, rfl, rfl⟩
      refine ⟨?_, replays.mp ⟨portfolios, replayed⟩⟩
      intro bar listed reached
      exact (faults_eq_nil_iff (fit _ _ (lookup_of_mem listed)) positive).mp
        (sound bar listed reached).1
    · intro restatable
      obtain ⟨sound, replay⟩ := restatable breakDate observed newScaleDates ⟨rfl, rfl, rfl⟩
      obtain ⟨portfolios, replayed⟩ := replays.mpr replay
      refine ⟨_, ?_, portfolios, replayed, rfl⟩
      intro bar listed reached
      have stored := fit _ _ (lookup_of_mem listed)
      have soundly := sound bar listed reached
      exact ⟨(faults_eq_nil_iff stored positive).mpr soundly, outOfRange_eq_false stored positive soundly⟩

/-- A portfolio that was rescaled and replayed spares what it spared. -/
theorem rebuilt_spares {splits : Table Key SplitRatio} {ticker : String} {exDate : Date} {ratio : ℚ}
    {portfolio rebuilt : Portfolio}
    (replayed : rebuildSimState world splits (rescaleOrders ticker exDate ratio portfolio) =
      .ok rebuilt) :
    rebuilt.reconciled = portfolio.reconciled ∧
      ∀ other, portfolio.Spares other → rebuilt.Spares other := by
  unfold rebuildSimState rescaleOrders at replayed
  by_cases kept : portfolio.reconciled = true
  · rw [if_pos kept] at replayed
    split at replayed
    · obtain ⟨book, -, rfl⟩ := map_ok.mp replayed
      refine ⟨rfl, fun other spared => ⟨spared.1, ?_⟩⟩
      intro order listed
      obtain ⟨before, member, rfl⟩ := List.mem_map.mp listed
      split
      · exact spared.2 before member
      · exact spared.2 before member
    · rename_i closed
      exact absurd kept closed
  · rw [if_neg kept, if_neg kept] at replayed
    cases replayed
    exact ⟨rfl, fun _ spared => spared⟩

/-- What a decision leaves as it was, and the watermark that it writes. -/
structure Decided (world : World) (split : Key × ℚ) (before after : Store) : Prop where
  keys : after.prices.keys = before.prices.keys
  splits : after.splits = before.splits
  watermark : ∃ row, after.adjustments = before.adjustments.insert split.1 row
  spared : ∀ ticker, Spared before ticker → Spared after ticker
  evolves : Evolves world before after

theorem decideSplit_decided {split : Key × ℚ} {next : Store}
    (decided : decideSplit world now split store = .ok next) : Decided world split store next := by
  unfold decideSplit at decided
  split at decided
  · rename_i breakDate observed newScaleDates verdict
    have evolves := restate_evolves decided
    obtain ⟨-, portfolios, replayed, rfl⟩ := restate_ok_iff.mp decided
    refine ⟨?_, rfl, ⟨_, rfl⟩, ?_, evolves⟩
    · exact keys_mapRows _ _
    · intro ticker spared rebuilt listed reconciled
      obtain ⟨portfolio, member, computed⟩ := mapM_source replayed rebuilt listed
      obtain ⟨same, spares⟩ := rebuilt_spares computed
      exact spares ticker (spared portfolio member (same.symm.trans reconciled))
  · cases decided
    exact ⟨rfl, rfl, ⟨_, rfl⟩, fun _ spared => spared, .of_eq rfl rfl⟩

theorem Decided.adjustments {split : Key × ℚ} {before after : Store}
    (decided : Decided world split before after) (key : Key) :
    after.adjustments.lookup key = none ↔
      key ≠ split.1 ∧ before.adjustments.lookup key = none := by
  obtain ⟨row, written⟩ := decided.watermark
  rw [written]
  by_cases same : key = split.1
  · subst same
    simp
  · rw [AList.lookup_insert_ne same]
    simp [same]

/-- What is known of the splits that are still to be decided. -/
structure Pending (world : World) (store : Store) (splits : List (Key × ℚ)) : Prop where
  fit : AllFit world store.prices
  fresh : ∀ split ∈ splits, store.adjustments.lookup split.1 = none
  distinct : (splits.map Prod.fst).Nodup
  spared : ∀ split ∈ splits, Spared store split.1.1

theorem Pending.head {split : Key × ℚ} {rest : List (Key × ℚ)}
    (pending : Pending world store (split :: rest)) : Undecided world store split :=
  ⟨pending.fit, pending.fresh split List.mem_cons_self, pending.spared split List.mem_cons_self⟩

theorem Pending.tail {split : Key × ℚ} {rest : List (Key × ℚ)} {next : Store}
    (pending : Pending world store (split :: rest)) (decided : Decided world split store next) :
    Pending world next rest := by
  obtain ⟨other, distinct⟩ := List.nodup_cons.mp pending.distinct
  refine ⟨decided.evolves.fit pending.fit, ?_, distinct, ?_⟩
  · intro later listed
    rw [decided.adjustments]
    refine ⟨?_, pending.fresh later (List.mem_cons_of_mem _ listed)⟩
    intro same
    exact other (same ▸ List.mem_map_of_mem listed)
  · intro later listed
    exact decided.spared _ (pending.spared later (List.mem_cons_of_mem _ listed))

/-- Every split is restatable in the store where its turn comes. -/
def AllRestatable (world : World) (now : Instant) (store : Store) : Prop :=
  AdmissibleM (fun store split => decideSplit world now split store) (Restatable world) store
    (unadjudicated store)

/-- A pass completes exactly when every split is restatable where its turn comes. -/
theorem decideSplits_completes_iff {splits : List (Key × ℚ)}
    (pending : Pending world store splits) :
    (decideSplits world now splits store).2 = none ↔
      AdmissibleM (fun store split => decideSplit world now split store) (Restatable world) store
        splits := by
  induction splits generalizing store with
  | nil => simp [decideSplits, AdmissibleM]
  | cons split rest ih =>
    have decides : (∃ next, decideSplit world now split store = .ok next) ↔
        Restatable world store split := decideSplit_ok_iff pending.head
    rw [AdmissibleM, ← decides, decideSplits]
    cases result : decideSplit world now split store with
    | error raised => simp
    | ok next =>
      have later := ih (pending.tail (decideSplit_decided result))
      simp [later, Except.toOption]

/-- A pass keeps the dates and the splits, and a completed one leaves no split undecided. -/
theorem decideSplits_leaves {splits : List (Key × ℚ)} :
    (decideSplits world now splits store).1.prices.keys = store.prices.keys ∧
      (decideSplits world now splits store).1.splits = store.splits ∧
      ((decideSplits world now splits store).2 = none → ∀ key,
        (decideSplits world now splits store).1.adjustments.lookup key = none ↔
          key ∉ splits.map Prod.fst ∧ store.adjustments.lookup key = none) := by
  induction splits generalizing store with
  | nil => simp [decideSplits]
  | cons split rest ih =>
    rw [decideSplits]
    cases result : decideSplit world now split store with
    | error raised => exact ⟨rfl, rfl, fun completed => by cases completed⟩
    | ok next =>
      have decided := decideSplit_decided result
      obtain ⟨keys, same, watermarks⟩ := @ih next
      refine ⟨keys.trans decided.keys, same.trans decided.splits, ?_⟩
      intro completed key
      rw [watermarks completed, decided.adjustments, List.map_cons, List.mem_cons]
      tauto

/-- The splits that a pass decides. -/
theorem mem_unadjudicated {split : Key × ℚ} :
    split ∈ unadjudicated store ↔ (⟨split.1, split.2⟩ : Σ _ : Key, ℚ) ∈ store.splits.entries ∧
      (∃ latest ∈ store.latest, split.1.2 ≤ latest) ∧ store.adjustments.lookup split.1 = none := by
  unfold unadjudicated
  cases store.latest with
  | none => simp
  | some latest =>
    simp only [List.mem_insertionSort, List.mem_map, List.mem_filter, Bool.and_eq_true,
      decide_eq_true_eq, Option.isNone_iff_eq_none, Option.mem_some_iff, exists_eq_left']
    constructor
    · rintro ⟨row, holds, rfl⟩
      exact holds
    · intro holds
      exact ⟨⟨split.1, split.2⟩, holds, rfl⟩

/-- No simulated book touches a ticker with a split. -/
def Untouched (store : Store) : Prop :=
  ∀ split ∈ store.splits.entries, Spared store split.1.1

theorem unadjudicated_pending (fit : AllFit world store.prices) (untouched : Untouched store) :
    Pending world store (unadjudicated store) where
  fit := fit
  fresh split listed := (mem_unadjudicated.mp listed).2.2
  distinct := by
    unfold unadjudicated
    split
    · exact List.nodup_nil
    · rename_i latest newest
      refine ((List.perm_insertionSort _ _).map Prod.fst).nodup_iff.mpr ?_
      rw [List.map_map]
      exact (store.splits.nodupKeys.sublist List.filter_sublist)
  spared split listed := untouched _ (mem_unadjudicated.mp listed).1

/-- A completed pass leaves nothing to decide. -/
theorem unadjudicated_of_completed
    (completed : (reconcile world now store).2 = none) :
    unadjudicated (reconcile world now store).1 = [] := by
  obtain ⟨keys, splits, watermarks⟩ :=
    @decideSplits_leaves world store now (unadjudicated store)
  apply List.eq_nil_iff_forall_not_mem.mpr
  intro split listed
  obtain ⟨reported, recent, fresh⟩ := mem_unadjudicated.mp listed
  obtain ⟨unlisted, before⟩ := (watermarks completed split.1).mp fresh
  refine unlisted (List.mem_map_of_mem (mem_unadjudicated.mpr ⟨splits ▸ reported, ?_, before⟩))
  have same : (reconcile world now store).1.latest = store.latest := by
    unfold Store.latest reconcile
    rw [keys]
  exact same ▸ recent

end Decisions

section Nights

/-- A call that reaches the prices, the actions or the reconciliation. -/
inductive NightCall where
  | upsertPrices (now : Instant) (frame : Frame)
  | upsertActions (rows : List ActionRow)
  | reconcile (now : Instant)

/-- The store after a call. What a pass decided before it raised stays. -/
def night (world : World) (store : Store) : NightCall → Store
  | .upsertPrices now frame => upsertPrices world now frame store
  | .upsertActions rows => upsertActions rows store
  | .reconcile now => (reconcile world now store).1

/-- The store after calls from empty tables. -/
def nights (world : World) (portfolios : List Portfolio) (calls : List NightCall) : Store :=
  calls.foldl (night world) (.empty portfolios)

theorem decideSplits_fit {now : Instant} {splits : List (Key × ℚ)}
    (fit : AllFit world store.prices) : AllFit world (decideSplits world now splits store).1.prices := by
  induction splits generalizing store with
  | nil => exact fit
  | cons split rest ih =>
    rw [decideSplits]
    cases result : decideSplit world now split store with
    | error raised => exact fit
    | ok next => exact ih ((decideSplit_decided result).evolves.fit fit)

theorem nights_fit (portfolios : List Portfolio) (calls : List NightCall) :
    AllFit world (nights world portfolios calls).prices := by
  refine foldl_invariant (fun store : Store => AllFit world store.prices) ?_ ?_
  · intro call _ store fit
    cases call with
    | upsertPrices now frame => exact (upsertPrices_evolves now frame).fit fit
    | upsertActions rows => exact fit
    | reconcile now => exact decideSplits_fit fit
  · intro key row found
    cases found

end Nights

section OpenFault

/-- The evening of a day. -/
def evening (day : Date) : Instant := day * Nyse.dayLength + 22 * Nyse.hour

/-- One bar, fetched on its own evening. -/
def nightlyBar (day : Date) (opening close : ℚ) : NightCall :=
  .upsertPrices (evening day) ⟨[⟨.name "AAA", .reading day true,
    ⟨.number opening, .number (close + 2), .number (close - 2), .number close, .number 1000⟩,
      "fixture", some (evening day)⟩], true, true⟩

/-- A two for one split on the third of three days. -/
def splitOnThird : NightCall := .upsertActions [⟨"AAA", some 3, true, some 2⟩]

/-- Three nights; the first day's open is free. -/
def threeNights (opening : ℚ) : List NightCall :=
  [splitOnThird, nightlyBar 1 opening 20, nightlyBar 2 20 20, nightlyBar 3 10 10]

theorem threeNights_untouched (opening : ℚ) :
    Untouched (nights plainWorld [] (threeNights opening)) := by
  intro split _ portfolio listed
  have none : (nights plainWorld [] (threeNights opening)).portfolios = [] := rfl
  rw [none] at listed
  cases listed

end OpenFault

end TradingEngine.PriceStore
