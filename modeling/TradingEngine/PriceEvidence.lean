import TradingEngine.PriceTables
import TradingEngine.Runs

/-!
# What the price table keeps

One call of a writer leaves a stored bar, archives it, or does both. What it stores is
fit: the validator has nothing against the bar, or nothing but its open is wrong and the
bar has never been settled. The rows of a batch are divided into those that are stored
and those that are archived.
-/

namespace TradingEngine.PriceStore

open KeyedTables Runs

variable {world : World} {store : Store}

section Fitness

/-- Usable figures under a canonical ticker and a session, with the open inside the range
unless the bar was never settled. -/
def Fit (world : World) (key : Key) (row : Row) : Prop :=
  Placed world (observe key row) ∧
    ∃ figures : Figures, figures.Ranged ∧ row.quote = figures.quote ∧
      (figures.OpenInside ∨ neverSettledSql world key.2 row.fetchedAt = true)

theorem fit_iff {key : Key} {row : Row} :
    Fit world key row ↔ observationReasons world (observe key row) = [] ∨
      (openFaultOnly row.quote (observationReasons world (observe key row)) = true ∧
        neverSettledSql world key.2 row.fetchedAt = true) := by
  have excused := @openFaultOnly_iff world (observe key row)
  change openFaultOnly row.quote _ = true ↔ _ at excused
  rw [observationReasons_eq_nil, excused]
  constructor
  · rintro ⟨placed, figures, ranged, same, inside⟩
    by_cases within : figures.OpenInside
    · exact .inl ⟨placed, figures, ranged, within, same⟩
    · exact .inr ⟨⟨placed, figures, ranged, within, same⟩, inside.resolve_left within⟩
  · rintro (⟨placed, figures, ranged, inside, same⟩ | ⟨⟨placed, figures, ranged, _, same⟩, settled⟩)
    · exact ⟨placed, figures, ranged, same, .inl inside⟩
    · exact ⟨placed, figures, ranged, same, .inr settled⟩

theorem neverSettled_of_provisional {day : Date} {fetchedAt : Option Instant}
    (latest : Option Date) (provisional : barIsProvisional world (some day) fetchedAt latest = true) :
    neverSettledSql world day fetchedAt = true := by
  cases fetchedAt with
  | none => cases provisional
  | some fetched =>
    simp only [barIsProvisional, Bool.and_eq_true] at provisional
    exact provisional.2

/-- A well placed row is stored under its own ticker and date. -/
theorem observe_replaced {row : Observation} {key : Key} (placed : Placed world row)
    (keyed : row.key = some key) (stored : Option Row) : observe key (replaced stored row) = row := by
  obtain ⟨ticker, date, quote, source, fetchedAt⟩ := row
  obtain ⟨named, dated⟩ := placed
  cases ticker with
  | other text => cases named
  | name characters =>
    rcases date with text | ⟨day, _ | _⟩
    · cases dated
    · cases dated
    · cases keyed
      rfl

theorem exists_key {row : Observation} (placed : Placed world row) : ∃ key, row.key = some key := by
  obtain ⟨ticker, date, quote, source, fetchedAt⟩ := row
  cases date with
  | unreadable text => cases placed.2
  | reading day midnight => exact ⟨_, rfl⟩

end Fitness

section Judgement

/-- What admission demands of a row. -/
def Admissible (world : World) (row : Observation) : Prop :=
  Placed world row ∧ ∀ key ∈ row.key, ∀ stored, Fit world key (replaced stored row)

/-- A row without reasons after admission is fit to be stored. -/
theorem admissible_of_cleared {row : Observation}
    (cleared : admitProvisionalOpenFaults world store row (observationReasons world row) = []) :
    Admissible world row := by
  have judged : observationReasons world row = [] ∨
      (openFaultOnly row.quote (observationReasons world row) = true ∧
        barIsProvisional world row.date.day row.fetchedAt store.latest = true) := by
    simp only [admitProvisionalOpenFaults] at cleared
    split at cleared
    · rename_i provisional
      simp only [provisionalOpenOnlyFault, Bool.and_eq_true] at provisional
      exact .inr provisional
    · exact .inl cleared
  have placed : Placed world row := by
    rcases judged with sound | ⟨excused, -⟩
    · exact (observationReasons_eq_nil.mp sound).1
    · exact (openFaultOnly_iff.mp excused).1
  refine ⟨placed, ?_⟩
  intro key keyed stored
  rw [fit_iff, observe_replaced placed keyed]
  rcases judged with sound | ⟨excused, provisional⟩
  · exact .inl sound
  · refine .inr ⟨excused, neverSettled_of_provisional store.latest ?_⟩
    obtain ⟨day, dated, rfl⟩ := Option.map_eq_some_iff.mp keyed
    rw [dated] at provisional
    exact provisional

theorem judge_rows (rows earlier rest : List Observation) :
    (judge world store rows earlier rest).map Prod.fst = rest := by
  induction rest generalizing earlier with
  | nil => rfl
  | cons row rest ih => rw [judge, List.map_cons, ih]

/-- A row that passes has no reasons of its own. -/
theorem admissible_of_judge {rows earlier rest : List Observation} {row : Observation}
    (listed : (row, []) ∈ judge world store rows earlier rest) : Admissible world row := by
  induction rest generalizing earlier with
  | nil => cases listed
  | cons head rest ih =>
    rcases List.mem_cons.mp listed with here | later
    · obtain ⟨rfl, clear⟩ := Prod.mk.inj here
      exact admissible_of_cleared (List.append_eq_nil_iff.mp clear.symm).1
    · exact ih later

theorem duplicateFaults_ne_nil {rows earlier : List Observation} {row other : Observation}
    (before : other ∈ earlier) (same : coordinate other = coordinate row) :
    duplicateFaults rows earlier row ≠ [] := by
  simp only [duplicateFaults]
  split
  · simp
  · rw [if_pos (List.any_eq_true.mpr ⟨other, before, decide_eq_true same⟩)]
    simp

/-- The rows that pass, in order. -/
def passed (judged : List (Observation × List Fault)) : List Observation :=
  (judged.filter fun row => row.2.isEmpty).map Prod.fst

theorem mem_passed {judged : List (Observation × List Fault)} {row : Observation} :
    row ∈ passed judged ↔ (row, []) ∈ judged := by
  simp only [passed, List.mem_map, List.mem_filter, List.isEmpty_iff]
  constructor
  · rintro ⟨⟨other, faults⟩, ⟨listed, none⟩, rfl⟩
    cases none
    exact listed
  · intro listed
    exact ⟨(row, []), ⟨listed, rfl⟩, rfl⟩

/-- Rows that pass have coordinates of their own. -/
theorem passed_judge_distinct {rows earlier rest : List Observation} :
    (passed (judge world store rows earlier rest)).Pairwise (coordinate · ≠ coordinate ·) ∧
      ∀ row ∈ passed (judge world store rows earlier rest), ∀ other ∈ earlier,
        coordinate other ≠ coordinate row := by
  induction rest generalizing earlier with
  | nil => exact ⟨.nil, fun row listed => by cases listed⟩
  | cons head rest ih =>
    obtain ⟨distinct, fresh⟩ := @ih (earlier ++ [head])
    have later : ∀ row ∈ passed (judge world store rows (earlier ++ [head]) rest),
        ∀ other ∈ earlier, coordinate other ≠ coordinate row := fun row listed other before =>
      fresh row listed other (List.mem_append_left _ before)
    by_cases clear : (admitProvisionalOpenFaults world store head (observationReasons world head) ++
        duplicateFaults rows earlier head).isEmpty = true
    · have shape : passed (judge world store rows earlier (head :: rest)) =
          head :: passed (judge world store rows (earlier ++ [head]) rest) := by
        simp only [passed, judge, List.filter_cons, clear, if_true, List.map_cons]
      rw [shape]
      refine ⟨List.pairwise_cons.mpr ⟨fun row listed => ?_, distinct⟩, ?_⟩
      · exact fresh row listed head (List.mem_append_right _ (List.mem_singleton_self _))
      · intro row listed other before
        rcases List.mem_cons.mp listed with rfl | listed
        · intro same
          exact duplicateFaults_ne_nil before same
            (List.append_eq_nil_iff.mp (List.isEmpty_iff.mp clear)).2
        · exact later row listed other before
    · have shape : passed (judge world store rows earlier (head :: rest)) =
          passed (judge world store rows (earlier ++ [head]) rest) := by
        simp only [passed, judge, List.filter_cons, clear, Bool.false_eq_true, if_false]
      rw [shape]
      exact ⟨distinct, later⟩

theorem coordinate_of_key {row other : Observation} {key : Key} (keyed : row.key = some key)
    (also : other.key = some key) : coordinate row = coordinate other := by
  have read (row : Observation) (keyed : row.key = some key) :
      coordinate row = (key.1, .inr key.2) := by
    obtain ⟨ticker, date, quote, source, fetchedAt⟩ := row
    cases date with
    | unreadable text => cases keyed
    | reading day midnight =>
      cases keyed
      rfl
  rw [read row keyed, read other also]

end Judgement

section Batches

variable {rows : List Observation}

theorem promoted_sublist :
    (sortOut world store rows).promoted.Sublist (passed (validatedObservations world store rows)) :=
  List.filter_sublist

theorem promoted_admissible {row : Observation}
    (listed : row ∈ (sortOut world store rows).promoted) : Admissible world row :=
  admissible_of_judge (mem_passed.mp (promoted_sublist.subset listed))

theorem promoted_distinct : (sortOut world store rows).promoted.Pairwise
    fun row other => ∀ key, row.key = some key → other.key ≠ some key := by
  refine (passed_judge_distinct.1.sublist promoted_sublist).imp ?_
  intro row other different key keyed also
  exact different (coordinate_of_key keyed also)

theorem sortOut_perm : ((sortOut world store rows).promoted ++
    ((sortOut world store rows).refused.map Prod.fst ++ (sortOut world store rows).held)).Perm
      rows := by
  have divided := List.filter_append_perm (fun row : Observation × List Fault => row.2.isEmpty)
    (validatedObservations world store rows)
  have named := divided.map Prod.fst
  rw [List.map_append, validatedObservations, judge_rows] at named
  have admitted := List.filter_append_perm
    (fun row : Observation => !basisUnverified store
      (passed (validatedObservations world store rows)) row.ticker.text)
    (passed (validatedObservations world store rows))
  simp only [Bool.not_not] at admitted
  refine List.Perm.trans ?_ named
  refine List.Perm.trans ?_ (admitted.append_right _)
  simp only [List.append_assoc]
  exact List.Perm.append_left _ List.perm_append_comm

/-- The first row of a key, if any, decides what is stored under it. -/
theorem lookup_promote {promoted : List Observation} (prices : Table Key Row)
    (distinct : promoted.Pairwise fun row other => ∀ key, row.key = some key → other.key ≠ some key)
    (key : Key) :
    (promoted.foldl promote prices).lookup key = prices.lookup key ∧
        (∀ row ∈ promoted, row.key ≠ some key) ∨
      ∃ row ∈ promoted, row.key = some key ∧
        (promoted.foldl promote prices).lookup key = some (replaced (prices.lookup key) row) := by
  induction promoted generalizing prices with
  | nil => exact .inl ⟨rfl, fun row listed => by cases listed⟩
  | cons head rest ih =>
    obtain ⟨fresh, distinct⟩ := List.pairwise_cons.mp distinct
    by_cases keyed : head.key = some key
    · refine .inr ⟨head, List.mem_cons_self, keyed, ?_⟩
      rcases @ih (promote prices head) distinct with
        ⟨same, -⟩ | ⟨row, listed, also, -⟩
      · rw [List.foldl_cons, same]
        simp [promote, keyed]
      · exact absurd also (fresh row listed key keyed)
    · have before : (promote prices head).lookup key = prices.lookup key := by
        simp only [promote]
        split
        · rfl
        · rename_i other named
          rw [AList.lookup_insert_ne]
          rintro rfl
          exact keyed named
      rcases @ih (promote prices head) distinct with
        ⟨same, other⟩ | ⟨row, listed, also, found⟩
      · rw [List.foldl_cons, same, before]
        refine .inl ⟨rfl, ?_⟩
        intro row listed
        rcases List.mem_cons.mp listed with rfl | listed
        · exact keyed
        · exact other row listed
      · rw [before] at found
        exact .inr ⟨row, List.mem_cons_of_mem _ listed, also, found⟩

end Batches

section Restatements

/-- Figures on the scale after a split. -/
def Figures.restated (round : ℚ → Int) (ratio : ℚ) (figures : Figures) : Figures :=
  ⟨figures.opening / ratio, figures.high / ratio, figures.low / ratio, figures.close / ratio,
    round (figures.volume * ratio)⟩

theorem restatedQuote_figures (round : ℚ → Int) (ratio : ℚ) (figures : Figures) :
    restatedQuote round ratio figures.quote = (figures.restated round ratio).quote := rfl

theorem Figures.quote_injective {figures other : Figures} (same : figures.quote = other.quote) :
    figures = other := by
  obtain ⟨opening, high, low, close, volume⟩ := figures
  obtain ⟨opening', high', low', close', volume'⟩ := other
  simp only [Figures.quote, Quote.mk.injEq, Cell.number.injEq, Int.cast_inj] at same
  obtain ⟨rfl, rfl, rfl, rfl, rfl⟩ := same
  rfl

/-- A restatement that leaves a positive price has a positive ratio. -/
theorem ratio_pos {figures : Figures} {round : ℚ → Int} {ratio : ℚ} (ranged : figures.Ranged)
    (restated : (figures.restated round ratio).Ranged) : 0 < ratio := by
  by_contra nonpositive
  exact (div_nonpos_of_nonneg_of_nonpos ranged.opening.le (not_lt.mp nonpositive)).not_gt
    restated.opening

theorem roundHalfAway_nonneg {value : ℚ} (nonneg : 0 ≤ value) : 0 ≤ roundHalfAway value := by
  rw [roundHalfAway, if_pos nonneg]
  positivity

/-- A bar that the validator admits on the new scale is fit as SQL restates it. -/
theorem fit_restated {key : Key} {row : Row} {ratio : ℚ} (fit : Fit world key row)
    (sound : observationReasons world
      (observe key { row with quote := restatedQuote roundHalfEven ratio row.quote }) = [])
    (fits : outOfRange (restatedQuote roundHalfAway ratio row.quote).volume = false) :
    Fit world key { row with quote := restatedQuote roundHalfAway ratio row.quote } := by
  obtain ⟨-, figures, ranged, same, -⟩ := fit
  obtain ⟨placed, restated, restatedRanged, inside, candidate⟩ := observationReasons_eq_nil.mp sound
  change restatedQuote roundHalfEven ratio row.quote = restated.quote at candidate
  rw [same, restatedQuote_figures] at candidate
  obtain rfl := Figures.quote_injective candidate
  have positive := ratio_pos ranged restatedRanged
  have counted : (0 : ℚ) ≤ figures.volume * ratio :=
    mul_nonneg (by exact_mod_cast ranged.volume) positive.le
  rw [same, restatedQuote_figures] at fits ⊢
  refine ⟨placed, figures.restated roundHalfAway ratio, ?_, rfl, .inl inside⟩
  simp only [Figures.restated, Figures.quote, outOfRange, Bool.or_eq_false_iff,
    decide_eq_false_iff_not, not_lt] at fits
  exact ⟨restatedRanged.opening, restatedRanged.low, restatedRanged.lowClose,
    restatedRanged.closeHigh, roundHalfAway_nonneg counted, by exact_mod_cast fits.1⟩

end Restatements

section Steps

/-- The bar is in the evidence table as it was stored. -/
def Archived (rejects : List Evidence) (key : Key) (row : Row) : Prop :=
  ∃ evidence ∈ rejects, evidence.observation = observe key row ∧
    evidence.firstFetchedAt = row.firstFetchedAt

theorem Archived.mono {rejects more : List Evidence} {key : Key} {row : Row}
    (archived : Archived rejects key row) (grown : rejects ⊆ more) : Archived more key row := by
  obtain ⟨evidence, listed, same⟩ := archived
  exact ⟨evidence, grown listed, same⟩

theorem archived_map {bars : List (Σ _ : Key, Row)} {now : Instant}
    {reason : (Σ _ : Key, Row) → String} {key : Key} {row : Row}
    (listed : (⟨key, row⟩ : Σ _ : Key, Row) ∈ bars) :
    Archived (bars.map fun bar => archive now (reason bar) bar) key row :=
  ⟨_, List.mem_map.mpr ⟨_, listed, rfl⟩, rfl, rfl⟩

/-- Every stored bar is fit. -/
def AllFit (world : World) (prices : Table Key Row) : Prop :=
  ∀ key row, prices.lookup key = some row → Fit world key row

/-- What a writer may do to the price table and its evidence. -/
structure Evolves (world : World) (start stop : Store) : Prop where
  evidence : start.rejects <+: stop.rejects
  kept : ∀ key row, start.prices.lookup key = some row →
    stop.prices.lookup key = some row ∨ Archived stop.rejects key row
  fit : AllFit world start.prices → AllFit world stop.prices
  first : ∀ key old new, start.prices.lookup key = some old → stop.prices.lookup key = some new →
    ∀ instant ∈ old.firstFetchedAt, new.firstFetchedAt = some instant

theorem Evolves.of_eq {start stop : Store} (prices : stop.prices = start.prices)
    (rejects : stop.rejects = start.rejects) : Evolves world start stop where
  evidence := by rw [rejects]
  kept key row found := .inl (by rw [prices, found])
  fit fit := by rwa [prices]
  first key old new found stored instant known := by
    rw [prices, found] at stored
    cases stored
    exact known

/-- A batch promotes fit rows over archived ones. -/
theorem upsertPrices_evolves (now : Instant) (frame : Frame) :
    Evolves world store (upsertPrices world now frame store) where
  evidence := by
    simp only [upsertPrices, List.append_assoc]
    exact List.prefix_append _ _
  kept key row found := by
    rcases lookup_promote store.prices promoted_distinct key with
      ⟨same, -⟩ | ⟨promoted, listed, keyed, -⟩
    · exact .inl (same.trans found)
    · have replaces : (⟨key, row⟩ : Σ _ : Key, Row) ∈
          predecessors store (sortOut world store (frame.filled now)).promoted := by
        refine List.mem_filterMap.mpr ⟨promoted, listed, ?_⟩
        simp [keyed, found]
      exact .inr ((archived_map replaces).mono (List.subset_append_right _ _))
  fit fit key row found := by
    rcases lookup_promote store.prices promoted_distinct key with
      ⟨same, -⟩ | ⟨promoted, listed, keyed, stored⟩
    · exact fit key row (same.symm.trans found)
    · obtain rfl := Option.some.inj (stored.symm.trans found)
      exact (promoted_admissible listed).2 key keyed _
  first key old new found stored instant known := by
    rcases lookup_promote store.prices promoted_distinct key with
      ⟨same, -⟩ | ⟨promoted, -, -, replacedRow⟩
    · obtain rfl := Option.some.inj (found.symm.trans (same.symm.trans stored))
      exact known
    · obtain rfl := Option.some.inj (replacedRow.symm.trans stored)
      rw [found]
      simp only [replaced]
      rw [Option.mem_def.mp known]
      rfl

/-- Removed bars are archived; the others stay. -/
theorem removeBars_evolves (now : Instant) (reason : List Fault → String)
    (selected : Key → Row → Bool) :
    Evolves world store (removeBars world now reason selected store) where
  evidence := List.prefix_append _ _
  kept key row found := by
    by_cases removed : selected key row = true
    · refine .inr (Archived.mono (archived_map ?_) (List.subset_append_right _ _))
      exact List.mem_filter.mpr ⟨mem_of_lookup found, removed⟩
    · refine .inl ?_
      change (filterRows _ _).lookup key = some row
      rw [lookup_filterRows, found, Option.filter_some, if_pos (by simpa using removed)]
  fit fit key row found := by
    change (filterRows _ _).lookup key = some row at found
    rw [lookup_filterRows, Option.filter_eq_some_iff] at found
    exact fit key row found.1
  first key old new found stored instant known := by
    change (filterRows _ _).lookup key = some new at stored
    rw [lookup_filterRows, Option.filter_eq_some_iff, found] at stored
    obtain rfl := Option.some.inj stored.1
    exact known

/-- A restatement completes when the validator admits every bar on the new scale, their
volumes fit and the portfolios replay; it then writes all of it. -/
theorem restate_ok_iff {now : Instant} {split : Restatement} {stop : Store} :
    restate world now split store = .ok stop ↔
      (∀ bar ∈ store.prices.entries, split.reaches bar.1 = true → split.faults world bar = [] ∧
        outOfRange (split.bar bar.2).quote.volume = false) ∧
      ∃ portfolios, split.portfolios world now store = .ok portfolios ∧
        stop = split.written now store portfolios := by
  constructor
  · intro completed
    unfold restate at completed
    split at completed
    · cases completed
    · rename_i sound
      split at completed
      · cases completed
      · rename_i fits
        split at completed
        · cases completed
        · rename_i portfolios replayed
          cases completed
          refine ⟨?_, portfolios, replayed, rfl⟩
          intro bar listed reached
          have chosen : bar ∈ split.previous store := List.mem_filter.mpr ⟨listed, reached⟩
          constructor
          · simpa using List.find?_eq_none.mp sound bar chosen
          · have inside := fun out => fits (List.any_eq_true.mpr ⟨bar, chosen, out⟩)
            simpa using inside
  · rintro ⟨sound, portfolios, replayed, rfl⟩
    have faultless : ((split.previous store).find? fun bar =>
        !(split.faults world bar).isEmpty) = none := by
      apply List.find?_eq_none.mpr
      intro bar chosen
      obtain ⟨listed, reached⟩ := List.mem_filter.mp chosen
      simpa using (sound bar listed reached).1
    have fits : ((split.previous store).any fun bar =>
        outOfRange (split.bar bar.2).quote.volume) = false := by
      apply List.any_eq_false.mpr
      intro bar chosen
      obtain ⟨listed, reached⟩ := List.mem_filter.mp chosen
      simpa using (sound bar listed reached).2
    unfold restate
    rw [faultless, fits, replayed]
    rfl

/-- A restatement archives the bars that it changes. -/
theorem restate_evolves {now : Instant} {split : Restatement} {stop : Store}
    (completed : restate world now split store = .ok stop) : Evolves world store stop := by
  obtain ⟨sound, portfolios, -, rfl⟩ := restate_ok_iff.mp completed
  refine ⟨List.prefix_append _ _, ?_, ?_, ?_⟩
  · intro key row found
    by_cases reached : split.reaches key = true
    · refine .inr (Archived.mono (archived_map ?_) (List.subset_append_right _ _))
      exact List.mem_filter.mpr ⟨mem_of_lookup found, reached⟩
    · refine .inl ?_
      rw [Restatement.written, lookup_mapRows, found, Option.map_some, if_neg reached]
  · intro fit key row found
    rw [Restatement.written, lookup_mapRows] at found
    obtain ⟨old, stored, rfl⟩ := Option.map_eq_some_iff.mp found
    by_cases reached : split.reaches key = true
    · rw [if_pos reached]
      obtain ⟨faultless, fits⟩ := sound _ (mem_of_lookup stored) reached
      exact fit_restated (fit key old stored) faultless fits
    · rw [if_neg reached]
      exact fit key old stored
  · intro key old new found stored instant known
    rw [Restatement.written, lookup_mapRows, found, Option.map_some] at stored
    obtain rfl := Option.some.inj stored
    split
    · exact known
    · exact known

/-- A call of one of the writers. -/
inductive Operation where
  | upsertPrices (now : Instant) (frame : Frame)
  | upsertActions (rows : List ActionRow)
  | restate (now : Instant) (split : Restatement)
  | cleanup (now : Instant) (dryRun : Bool)
  | retire (now : Instant) (since : Option Date) (dryRun : Bool)

/-- The store after a call. One that raises changes nothing. -/
def step (world : World) (store : Store) : Operation → Store
  | .upsertPrices now frame => upsertPrices world now frame store
  | .upsertActions rows => upsertActions rows store
  | .restate now split => (restate world now split store).toOption.getD store
  | .cleanup now dryRun => (cleanupHardInvalidPrices world now dryRun store).getD store
  | .retire now since dryRun => (retireStaleProvisional world now since dryRun store).getD store

/-- One call leaves every bar, or archives it, and stores fit bars only. -/
theorem step_evolves (operation : Operation) : Evolves world store (step world store operation) := by
  have idle : Evolves world store store := .of_eq rfl rfl
  cases operation with
  | upsertPrices now frame => exact upsertPrices_evolves now frame
  | upsertActions rows => exact .of_eq rfl rfl
  | restate now split =>
    rw [step]
    cases result : restate world now split store with
    | error raised => exact idle
    | ok stop => exact restate_evolves result
  | cleanup now dryRun =>
    rw [step, cleanupHardInvalidPrices]
    split
    · exact idle
    · split
      · exact idle
      · exact removeBars_evolves now _ _
  | retire now since dryRun =>
    rw [step, retireStaleProvisional]
    split
    · exact idle
    · split
      · exact idle
      · split
        · exact idle
        · rw [Option.getD_some]
          exact removeBars_evolves now _ _

end Steps

section Runs

/-- The store after calls from an empty price table. -/
def reached (world : World) (portfolios : List Portfolio) (operations : List Operation) : Store :=
  operations.foldl (step world) (.empty portfolios)

theorem reached_append (portfolios : List Portfolio) (before during : List Operation) :
    reached world portfolios (before ++ during) =
      during.foldl (step world) (reached world portfolios before) :=
  List.foldl_append

/-- Every stored bar of a run is fit. -/
theorem reached_fit (portfolios : List Portfolio) (operations : List Operation) :
    AllFit world (reached world portfolios operations).prices := by
  refine foldl_invariant (fun store : Store => AllFit world store.prices) ?_ ?_
  · intro operation _ store fit
    exact (step_evolves operation).fit fit
  · intro key row found
    cases found

/-- Evidence is never taken away. -/
theorem rejects_grow (store : Store) (operations : List Operation) :
    store.rejects <+: (operations.foldl (step world) store).rejects := by
  refine foldl_invariant (fun later : Store => store.rejects <+: later.rejects) ?_ List.prefix_rfl
  intro operation _ later grown
  exact grown.trans (step_evolves operation).evidence

/-- A bar stays as it is until it is archived. -/
theorem kept_or_archived (operations : List Operation) {key : Key} {row : Row}
    (found : store.prices.lookup key = some row) :
    (operations.foldl (step world) store).prices.lookup key = some row ∨
      Archived (operations.foldl (step world) store).rejects key row := by
  refine foldl_invariant (fun later : Store =>
    later.prices.lookup key = some row ∨ Archived later.rejects key row) ?_ (.inl found)
  intro operation _ later holds
  rcases holds with stays | archived
  · exact (step_evolves operation).kept key row stays
  · exact .inr (archived.mono (step_evolves operation).evidence.subset)

/-- While a key is present, its first fetch time stays the one that was recorded. -/
theorem first_stays {operations : List Operation} {key : Key} {instant : Instant}
    (present : ∀ earlier, earlier <+: operations →
      ((earlier.foldl (step world) store).prices.lookup key).isSome = true)
    {old new : Row} (found : store.prices.lookup key = some old)
    (known : instant ∈ old.firstFetchedAt)
    (stored : (operations.foldl (step world) store).prices.lookup key = some new) :
    new.firstFetchedAt = some instant := by
  induction operations generalizing store old with
  | nil =>
    obtain rfl := Option.some.inj (found.symm.trans stored)
    exact known
  | cons operation rest ih =>
    have next := present [operation] ⟨rest, rfl⟩
    obtain ⟨middle, after⟩ := Option.isSome_iff_exists.mp next
    refine ih ?_ after ?_ stored
    · intro earlier before
      exact present (operation :: earlier) (List.cons_prefix_cons.mpr ⟨rfl, before⟩)
    · exact (step_evolves operation).first key old middle found after instant known

/-- The incoming rows of a batch are stored or archived, each of them once. -/
theorem batch_accounted (now : Instant) (frame : Frame) :
    ∃ (promoted : List Observation) (retained : List Evidence), (promoted ++ retained.map Evidence.observation).Perm (frame.filled now) ∧
      (∀ row ∈ promoted, ∃ key stored, row.key = some key ∧ observe key stored = row ∧
        (upsertPrices world now frame store).prices.lookup key = some stored) ∧
      retained.Sublist (upsertPrices world now frame store).rejects := by
  let batch := sortOut world store (frame.filled now)
  refine ⟨batch.promoted, batch.refused.map (fun row => row.1.evidence now (reasonText row.2)) ++
    batch.held.map (fun row => row.evidence now "basis_unverified"), ?_, ?_, ?_⟩
  · have same : (batch.refused.map (fun row => row.1.evidence now (reasonText row.2)) ++
        batch.held.map (fun row => row.evidence now "basis_unverified")).map Evidence.observation =
          batch.refused.map Prod.fst ++ batch.held := by
      simp [Observation.evidence, Function.comp_def]
    rw [same]
    exact sortOut_perm
  · intro row listed
    obtain ⟨placed, -⟩ := promoted_admissible listed
    obtain ⟨key, keyed⟩ := exists_key placed
    refine ⟨key, replaced (store.prices.lookup key) row, keyed, observe_replaced placed keyed _, ?_⟩
    rcases lookup_promote store.prices promoted_distinct key with
      ⟨-, other⟩ | ⟨promoted, also, samely, stored⟩
    · exact absurd keyed (other row listed)
    · have unique : promoted = row := by
        by_contra different
        have separate : Std.Symm fun row other : Observation =>
            ∀ key, row.key = some key → other.key ≠ some key :=
          ⟨fun row other separate key keyed also => separate key also keyed⟩
        exact promoted_distinct.forall also listed different key samely keyed
      rw [← unique]
      exact stored
  · refine List.Sublist.trans ?_ (List.sublist_append_left _ _)
    rw [List.append_assoc]
    exact List.sublist_append_right _ _

/-- The open is outside the range of a bar that has not been settled and is sound with its
close in place of the open. -/
structure ProvisionalOpen (world : World) (key : Key) (row : Row) : Prop where
  unsettled : ∃ fetched ∈ row.fetchedAt, world.zone.localDate fetched ≤ key.2
  outside : ∃ opening high low, row.quote.opening = .number opening ∧
    row.quote.high = .number high ∧ row.quote.low = .number low ∧
      ¬ (low ≤ opening ∧ opening ≤ high)
  otherwise : observationReasons world
    (observe key { row with quote := { row.quote with opening := row.quote.close } }) = []

/-- A fit bar is sound, or provisional with nothing but its open wrong. -/
theorem sound_or_provisional {key : Key} {row : Row} (fit : Fit world key row) :
    observationReasons world (observe key row) = [] ∨ ProvisionalOpen world key row := by
  obtain ⟨placed, figures, ranged, same, inside⟩ := fit
  by_cases within : figures.OpenInside
  · exact .inl (observationReasons_eq_nil.mpr ⟨placed, figures, ranged, within, same⟩)
  · refine .inr ⟨?_, ?_, ?_⟩
    · obtain ⟨fetched, known, early⟩ := (Option.any_eq_true ..).mp (inside.resolve_left within)
      exact ⟨fetched, known, of_decide_eq_true early⟩
    · refine ⟨figures.opening, figures.high, figures.low, ?_, ?_, ?_, within⟩
      all_goals
        rw [same]
        rfl
    · refine observationReasons_eq_nil.mpr ⟨placed, figures.closed, ?_, ?_, ?_⟩
      · exact ⟨ranged.close, ranged.low, ranged.lowClose, ranged.closeHigh, ranged.volume,
          ranged.bounded⟩
      · exact ⟨ranged.lowClose, ranged.closeHigh⟩
      · change ({ row.quote with opening := row.quote.close } : Quote) = _
        rw [same]
        rfl

/-- Whatever batches, restatements, cleanups and retirements are run from an empty price
table: every stored bar is sound, or provisional with nothing but its open wrong; a first
fetch time that is recorded stays while its key is present; a bar that was stored and no
longer is has been archived; and the rows of every batch are stored or archived. -/
theorem priceTable_keepsEvidence (world : World) (portfolios : List Portfolio)
    (before during : List Operation) :
    let start := reached world portfolios before
    let stop := reached world portfolios (before ++ during)
    (∀ key row, stop.prices.lookup key = some row →
      observationReasons world (observe key row) = [] ∨ ProvisionalOpen world key row) ∧
    (∀ key old new, start.prices.lookup key = some old → stop.prices.lookup key = some new →
      (∀ earlier, earlier <+: during →
        ((reached world portfolios (before ++ earlier)).prices.lookup key).isSome = true) →
      ∀ instant ∈ old.firstFetchedAt, new.firstFetchedAt = some instant) ∧
    (∀ key row, start.prices.lookup key = some row →
      stop.prices.lookup key = some row ∨ Archived stop.rejects key row) ∧
    ∀ now frame later, during = .upsertPrices now frame :: later →
      ∃ (promoted : List Observation) (retained : List Evidence),
        (promoted ++ retained.map Evidence.observation).Perm (frame.filled now) ∧
        (∀ row ∈ promoted, ∃ key stored, row.key = some key ∧ observe key stored = row ∧
          (upsertPrices world now frame start).prices.lookup key = some stored) ∧
        retained.Sublist stop.rejects := by
  intro start stop
  have path : stop = during.foldl (step world) start := reached_append portfolios before during
  refine ⟨?_, ?_, ?_, ?_⟩
  · intro key row found
    exact sound_or_provisional (reached_fit portfolios _ key row found)
  · intro key old new found stored present instant known
    rw [path] at stored
    refine first_stays ?_ found known stored
    intro earlier short
    rw [← reached_append]
    exact present earlier short
  · intro key row found
    rw [path]
    exact kept_or_archived during found
  · intro now frame later shape
    obtain ⟨promoted, retained, divided, held, archived⟩ :=
      @batch_accounted world start now frame
    refine ⟨promoted, retained, divided, held, archived.trans ?_⟩
    rw [path, shape]
    exact (rejects_grow (step world start (.upsertPrices now frame)) later).sublist

end Runs

section MissingStamps

/-- Every day is a session and every ticker is canonical. -/
def plainWorld : World := ⟨Nyse.daylightTime, fun _ => true, id, id⟩

/-- A batch of one sound bar with the fetch time that came with it. -/
def oneBar (fetchedAt : Option Instant) : Operation :=
  .upsertPrices 0 ⟨[⟨.name "AAA", .reading 1 true,
    ⟨.number 10, .number 11, .number 9, .number 10, .number 100⟩, "fixture", fetchedAt⟩], true, true⟩

/-- A bar that came without a fetch time takes the first one that arrives. -/
theorem firstFetchTime_changes : ¬ ∀ (world : World) (portfolios : List Portfolio)
    (before during : List Operation) (key : Key) (old new : Row),
    (reached world portfolios before).prices.lookup key = some old →
    (reached world portfolios (before ++ during)).prices.lookup key = some new →
    (∀ earlier, earlier <+: during →
      ((reached world portfolios (before ++ earlier)).prices.lookup key).isSome = true) →
    new.firstFetchedAt = old.firstFetchedAt := by
  intro unchanged
  let quote : Quote := ⟨.number 10, .number 11, .number 9, .number 10, .number 100⟩
  have same := unchanged plainWorld [] [oneBar none] [oneBar (some 5)] ("AAA", 1)
    ⟨quote, "fixture", none, none⟩ ⟨quote, "fixture", some 5, some 5⟩
    (by decide +kernel) (by decide +kernel) ?_
  · cases same
  · intro earlier short
    have listed : earlier ∈ [oneBar (some 5)].inits := (List.mem_inits _ _).mpr short
    simp only [List.inits, List.map_cons, List.map_nil, List.mem_cons, List.not_mem_nil,
      or_false] at listed
    rcases listed with rfl | rfl <;> decide +kernel

end MissingStamps

end TradingEngine.PriceStore
