import TradingEngine.AsOfPrices

/-!
# Incremental prices

A bar that is available stands in the table as the whole view would show it: it was
written when it became available, and again whenever the splits of its security that
are known changed. A bar that is not available yet can only stand there by its open.
Such a row is written at an open and stays until its bar becomes available, its
security is scaled anew, or the same day's open is taken again. Any other call in
between leaves it in the table, where the view at that call does not have it.
-/

namespace TradingEngine.AsOf

open KeyedTables Nyse Runs

variable {archive : Archive} {policy : KnowledgePolicy}

section Scales

theorem effective_le_known (action : Action) :
    splitEffectiveAt archive action ≤ splitKnownAt archive policy action := by
  cases policy with
  | primary => exact le_rfl
  | sensitivity =>
    have later := nextSession_later action.exDate
    have low := archive.zone.offset_low (nextSession action.exDate)
    have high := archive.zone.offset_high action.exDate
    simp only [splitKnownAt, splitEffectiveAt, splitFixedLagAt, opened, dayLength, hour, minute]
    omega

/-- The loop of the whole view applies the splits of the scale. -/
theorem applySplit_fst (bar : Bar) (cutoff : Int) (actions : List Action)
    (scale : ℚ × List String) :
    (actions.foldl (applySplit archive policy bar cutoff) scale).1 =
      actions.foldl (fun factor action =>
        if bar.session < action.exDate ∧ splitEffectiveAt archive action ≤ cutoff ∧
            splitKnownAt archive policy action ≤ cutoff ∧ action.outcome = .trusted then
          factor * action.newSharesPerOld
        else factor) scale.1 := by
  induction actions generalizing scale with
  | nil => rfl
  | cons action rest ih =>
    rw [List.foldl_cons, List.foldl_cons, ih]
    congr 1
    simp only [applySplit]
    by_cases before : bar.session < action.exDate <;>
      by_cases effective : splitEffectiveAt archive action ≤ cutoff <;>
        by_cases known : splitKnownAt archive policy action ≤ cutoff <;>
          cases outcome : action.outcome <;> simp [before, effective, known, not_lt.mpr, not_le.mp]

theorem mem_knownSplitIds {cutoff : Int} {action : Action} (listed : action ∈ archive.actions) :
    action.actionId ∈ knownSplitIds archive policy cutoff action.securityId ↔
      action.outcome = .trusted ∧ splitKnownAt archive policy action ≤ cutoff := by
  simp only [knownSplitIds, actionsOf, List.mem_insertionSort, List.mem_map, List.mem_filter,
    decide_eq_true_eq]
  constructor
  · rintro ⟨other, ⟨⟨stored, -⟩, holds⟩, same⟩
    rw [← List.inj_on_of_nodup_map archive.oneAction stored listed same]
    exact holds
  · intro holds
    exact ⟨action, ⟨⟨listed, rfl⟩, holds⟩, rfl⟩

/-- While the known splits of a security stay the same, so does its scale. -/
theorem asofFactor_congr {bar : Bar} {first second : Int}
    (same : knownSplitIds archive policy first bar.securityId =
      knownSplitIds archive policy second bar.securityId) :
    asofFactor archive policy bar first = asofFactor archive policy bar second := by
  refine List.foldl_ext _ _ _ fun factor action listed => ?_
  obtain ⟨stored, security⟩ := List.mem_filter.mp listed
  have named : action.securityId = bar.securityId := by simpa using security
  have known (cutoff : Int) : (bar.session < action.exDate ∧
      splitEffectiveAt archive action ≤ cutoff ∧ splitKnownAt archive policy action ≤ cutoff ∧
        action.outcome = .trusted) ↔ bar.session < action.exDate ∧
          action.actionId ∈ knownSplitIds archive policy cutoff bar.securityId := by
    rw [← named, mem_knownSplitIds stored]
    constructor
    · rintro ⟨before, -, known, trusted⟩
      exact ⟨before, trusted, known⟩
    · rintro ⟨before, trusted, known⟩
      exact ⟨before, (effective_le_known action).trans known, known, trusted⟩
  simp only [known, same]

end Scales

section Records

theorem lookup_insertRecords_ne {cutoff : Int} {prices : Table (String × Int) PriceRow}
    {added : List Addition} {key : String × Int}
    (other : ∀ addition ∈ added, addition.bar.key ≠ key) :
    (insertRecords archive policy cutoff prices added).lookup key = prices.lookup key := by
  refine foldl_invariant (fun table : Table (String × Int) PriceRow =>
    table.lookup key = prices.lookup key) ?_ rfl
  intro addition listed table holds
  rw [AList.lookup_insert_ne (other addition listed).symm]
  exact holds

variable {addition : Addition}

theorem lookup_insertRecords {cutoff : Int} {prices : Table (String × Int) PriceRow}
    {added : List Addition} (listed : addition ∈ added)
    (only : ∀ other ∈ added, other.bar.key = addition.bar.key → other = addition) :
    (insertRecords archive policy cutoff prices added).lookup addition.bar.key =
      some (priceRecord addition.bar (asofFactor archive policy addition.bar cutoff)
        addition.openOnly addition.visibleAt) := by
  induction added using List.reverseRecOn with
  | nil => cases listed
  | append_singleton earlier last ih =>
    simp only [insertRecords, List.foldl_append, List.foldl_cons, List.foldl_nil]
    by_cases same : last.bar.key = addition.bar.key
    · rw [only last (by simp) same, AList.lookup_insert]
    · rw [AList.lookup_insert_ne (Ne.symm same)]
      apply ih
      · rcases List.mem_append.mp listed with before | here
        · exact before
        · rw [List.mem_singleton.mp here] at same
          exact absurd rfl same
      · intro other member
        exact only other (List.mem_append_left _ member)

theorem bar_of_key {bar other : Bar} (stored : bar ∈ archive.bars) (also : other ∈ archive.bars)
    (same : bar.key = other.key) : bar = other :=
  List.inj_on_of_nodup_map archive.oneBar stored also same

/-- The bars that were available at the watermark. -/
def Past (store : Store) (bar : Bar) : Prop := ∃ watermark ∈ store.watermark,
  bar.availableAt ≤ watermark

theorem not_past {store : Store} {bar : Bar} :
    ¬ Past store bar ↔ ∀ watermark ∈ store.watermark, watermark < bar.availableAt := by
  simp [Past]

/-- What a call writes: bars that are available and new or of a rescaled security, and at
the open the bars of the day that are not available. -/
theorem mem_additions {store : Store} {call : Call} :
    addition ∈ additions archive policy store call ↔
      addition.bar ∈ archive.bars ∧
        (addition.bar.availableAt ≤ call.asOf ∧
            (addition.bar.securityId ∈ rewriteIds archive policy store call.asOf ∨
              ¬ Past store addition.bar) ∧
            addition.openOnly = false ∧ addition.visibleAt = addition.bar.availableAt ∨
          call.phase = .open_ ∧ addition.bar.session = archive.zone.localDate call.asOf ∧
            call.asOf < addition.bar.availableAt ∧
            addition.openOnly = true ∧ addition.visibleAt = call.asOf) := by
  obtain ⟨bar, openOnly, visibleAt⟩ := addition
  have opening : (⟨bar, openOnly, visibleAt⟩ : Addition) ∈ (if call.phase = .open_ then
      ((indexedBars archive).filter fun bar =>
        bar.session = archive.zone.localDate call.asOf ∧ call.asOf < bar.availableAt).map
          fun bar => (⟨bar, true, call.asOf⟩ : Addition)
      else []) ↔ call.phase = .open_ ∧ bar ∈ archive.bars ∧
        bar.session = archive.zone.localDate call.asOf ∧ call.asOf < bar.availableAt ∧
        openOnly = true ∧ visibleAt = call.asOf := by
    split
    · rename_i opens
      simp only [indexedBars, List.mem_map, List.mem_filter, List.mem_insertionSort,
        decide_eq_true_eq, Addition.mk.injEq]
      constructor
      · rintro ⟨_, ⟨stored, day, early⟩, rfl, rfl, rfl⟩
        exact ⟨opens, stored, day, early, rfl, rfl⟩
      · rintro ⟨-, stored, day, early, rfl, rfl⟩
        exact ⟨bar, ⟨stored, day, early⟩, rfl, rfl, rfl⟩
    · rename_i closed
      simp [closed]
  rw [additions, List.mem_append, List.mem_append, opening]
  simp only [indexedBars, List.mem_flatMap, List.mem_map, List.mem_filter, List.mem_insertionSort,
    decide_eq_true_eq, Addition.mk.injEq, not_past]
  constructor
  · rintro ((⟨security, rescaled, _, ⟨stored, named, available⟩, rfl, rfl, rfl⟩ |
      ⟨_, ⟨stored, new, available, kept⟩, rfl, rfl, rfl⟩) | ⟨opens, stored, day, early, shown⟩)
    · exact ⟨stored, .inl ⟨available, .inl (named ▸ rescaled), rfl, rfl⟩⟩
    · exact ⟨stored, .inl ⟨available, .inr new, rfl, rfl⟩⟩
    · exact ⟨stored, .inr ⟨opens, day, early, shown⟩⟩
  · rintro ⟨stored, ⟨available, scale, rfl, rfl⟩ | ⟨opens, day, early, shown⟩⟩
    · by_cases rescaled : bar.securityId ∈ rewriteIds archive policy store call.asOf
      · exact .inl (.inl ⟨bar.securityId, rescaled, bar, ⟨stored, rfl, available⟩, rfl, rfl, rfl⟩)
      · exact .inl (.inr ⟨bar, ⟨stored, scale.resolve_left rescaled, available, rescaled⟩,
          rfl, rfl, rfl⟩)
    · exact .inr ⟨opens, stored, day, early, shown⟩

/-- A call writes a bar in one way only. -/
theorem additions_only {store : Store} {call : Call} {other : Addition}
    (listed : addition ∈ additions archive policy store call)
    (also : other ∈ additions archive policy store call)
    (same : other.bar.key = addition.bar.key) : other = addition := by
  obtain ⟨stored, how⟩ := mem_additions.mp listed
  obtain ⟨kept, way⟩ := mem_additions.mp also
  obtain ⟨bar, openOnly, visibleAt⟩ := addition
  obtain ⟨again, otherOnly, otherAt⟩ := other
  dsimp only at stored how kept way
  obtain rfl : again = bar := bar_of_key kept stored same
  rcases how with ⟨available, -, shown, seen⟩ | ⟨-, -, early, shown, seen⟩
  · rcases way with ⟨-, -, alsoShown, alsoSeen⟩ | ⟨-, -, late, -, -⟩
    · rw [shown, seen, alsoShown, alsoSeen]
    · exact absurd available (not_le.mpr late)
  · rcases way with ⟨late, -, -, -⟩ | ⟨-, -, -, alsoShown, alsoSeen⟩
    · exact absurd late (not_le.mpr early)
    · rw [shown, seen, alsoShown, alsoSeen]

end Records

section Changes

variable {securityId : String}

theorem mem_rewriteIds {store : Store} {cutoff : Int} :
    securityId ∈ rewriteIds archive policy store cutoff ↔
      ∃ row, store.scaleState.lookup securityId = some row ∧
        row.2 ≠ knownSplitIds archive policy cutoff securityId := by
  simp only [rewriteIds, List.mem_insertionSort, List.mem_map, List.mem_filter, decide_eq_true_eq]
  constructor
  · rintro ⟨row, ⟨listed, changed⟩, rfl⟩
    exact ⟨row.2, lookup_of_mem listed, changed⟩
  · rintro ⟨row, found, changed⟩
    exact ⟨⟨securityId, row⟩, ⟨mem_of_lookup found, changed⟩, rfl⟩

theorem mem_rewriteTickers {store : Store} {cutoff : Int} {ticker : String} :
    ticker ∈ rewriteTickers archive policy store cutoff ↔
      ∃ securityId ∈ rewriteIds archive policy store cutoff,
        ∃ row, store.scaleState.lookup securityId = some row ∧ row.1 = ticker := by
  simp only [rewriteTickers, List.mem_filterMap, Option.map_eq_some_iff]

variable {added : List Addition}

/-- What the record of a security is after a call. -/
theorem lookup_updateScale {store : Store} {cutoff : Int} {row : String × List String}
    (found : (updateScale archive policy store cutoff added).lookup securityId = some row) :
    row.2 = knownSplitIds archive policy cutoff securityId ∧
      ((∃ old, store.scaleState.lookup securityId = some old ∧ old.1 = row.1) ∨
        ∃ addition ∈ added, addition.bar.securityId = securityId ∧
          addition.bar.ticker = row.1) := by
  revert row
  refine foldl_invariant (fun table : Table String (String × List String) =>
    ∀ {row}, table.lookup securityId = some row →
      row.2 = knownSplitIds archive policy cutoff securityId ∧
        ((∃ old, store.scaleState.lookup securityId = some old ∧ old.1 = row.1) ∨
          ∃ addition ∈ added, addition.bar.securityId = securityId ∧
            addition.bar.ticker = row.1)) ?_ ?_
  · intro addition listed table holds row found
    by_cases same : securityId = addition.bar.securityId
    · subst same
      rw [AList.lookup_insert, Option.some.injEq] at found
      subst found
      exact ⟨rfl, .inr ⟨addition, (List.mem_filter.mp listed).1, rfl, rfl⟩⟩
    · rw [AList.lookup_insert_ne same] at found
      exact holds found
  · intro row found
    rw [lookup_mapRows, Option.map_eq_some_iff] at found
    obtain ⟨old, recorded, rfl⟩ := found
    refine ⟨?_, .inl ⟨old, recorded, rfl⟩⟩
    by_cases changed : old.2 = knownSplitIds archive policy cutoff securityId
    · simp [changed]
    · simp [changed]

theorem updateScale_keeps {store : Store} {cutoff : Int}
    (recorded : (store.scaleState.lookup securityId).isSome) :
    ((updateScale archive policy store cutoff added).lookup securityId).isSome := by
  refine foldl_invariant (fun table : Table String (String × List String) =>
    (table.lookup securityId).isSome) ?_ ?_
  · intro addition _ table holds
    by_cases same : securityId = addition.bar.securityId
    · rw [same, AList.lookup_insert]
      rfl
    · rw [AList.lookup_insert_ne same]
      exact holds
  · rw [lookup_mapRows, Option.isSome_map]
    exact recorded

/-- A written security is recorded. -/
theorem updateScale_covers {store : Store} {cutoff : Int}
    {addition : Addition} (listed : addition ∈ added) :
    ((updateScale archive policy store cutoff added).lookup addition.bar.securityId).isSome := by
  by_cases recorded : (store.scaleState.lookup addition.bar.securityId).isSome
  · exact updateScale_keeps recorded
  · have fresh : addition ∈ added.filter fun addition =>
        (store.scaleState.lookup addition.bar.securityId).isNone := by
      rw [List.mem_filter]
      exact ⟨listed, by simpa using recorded⟩
    obtain ⟨earlier, later, split⟩ := List.append_of_mem fresh
    simp only [updateScale, split, List.foldl_append, List.foldl_cons]
    refine foldl_invariant (fun table : Table String (String × List String) =>
      (table.lookup addition.bar.securityId).isSome) ?_ ?_
    · intro other _ table holds
      by_cases same : addition.bar.securityId = other.bar.securityId
      · rw [same, AList.lookup_insert]
        rfl
      · rw [AList.lookup_insert_ne same]
        exact holds
    · rw [AList.lookup_insert]
      rfl

end Changes

section Views

/-- The prices that a row shows. -/
def PriceRow.values (row : PriceRow) : ℚ × Option ℚ × Option ℚ × Option ℚ :=
  (row.open_, row.high, row.low, row.close)

/-- A bar of the day that is not available yet. -/
def OpensToday (archive : Archive) (call : Call) (bar : Bar) : Prop :=
  call.phase = .open_ ∧ bar.session = archive.zone.localDate call.asOf ∧
    call.asOf < bar.availableAt

instance (archive : Archive) (call : Call) (bar : Bar) : Decidable (OpensToday archive call bar) :=
  inferInstanceAs (Decidable (_ ∧ _ ∧ _))

/-- What the prices at a call are: the whole view, and at the open the open of every bar of
the day that is not available yet. -/
inductive Shows (archive : Archive) (policy : KnowledgePolicy) (call : Call) :
    String × Int → ℚ × Option ℚ × Option ℚ × Option ℚ → Prop
  | available {row : AsofBar} (viewed : row ∈ asofSplitAdjustedBars archive policy call.asOf) :
      Shows archive policy call row.bar.key (row.open_, some row.high, some row.low, some row.close)
  | opening {bar : Bar} (stored : bar ∈ archive.bars) (today : OpensToday archive call bar) :
      Shows archive policy call bar.key
        (bar.open_ / asofFactor archive policy bar call.asOf, none, none, none)

/-- The table has exactly the rows of the view. -/
def Exact (archive : Archive) (policy : KnowledgePolicy) (store : Store) (call : Call) : Prop :=
  ∀ key values, (∃ row, store.prices.lookup key = some row ∧ row.values = values) ↔
    Shows archive policy call key values

/-- Every bar that stands in the table and is not available at the call is a bar of the
day's open, or its security is scaled anew. -/
def Settled (archive : Archive) (policy : KnowledgePolicy) (store : Store) (call : Call) : Prop :=
  ∀ bar ∈ archive.bars, call.asOf < bar.availableAt → (store.prices.lookup bar.key).isSome →
    OpensToday archive call bar ∨ bar.ticker ∈ rewriteTickers archive policy store call.asOf

instance (archive : Archive) (policy : KnowledgePolicy) (store : Store) (call : Call) :
    Decidable (Settled archive policy store call) :=
  inferInstanceAs (Decidable (∀ bar ∈ archive.bars, _))

theorem viewed_values {call : Call} {row : AsofBar}
    (viewed : row ∈ asofSplitAdjustedBars archive policy call.asOf) :
    row.bar ∈ archive.bars ∧ row.bar.availableAt ≤ call.asOf ∧
      (priceRecord row.bar (asofFactor archive policy row.bar call.asOf) false
        row.bar.availableAt).values = (row.open_, some row.high, some row.low, some row.close) := by
  obtain ⟨bar, kept, rfl⟩ := List.mem_map.mp viewed
  obtain ⟨stored, available⟩ := List.mem_filter.mp kept
  refine ⟨stored, of_decide_eq_true available, ?_⟩
  simp only [PriceRow.values, priceRecord, applySplit_fst, asofFactor, Bool.false_eq_true, if_false]

/-- An available bar is shown by its full row. -/
theorem shows_available {call : Call} {bar : Bar} (stored : bar ∈ archive.bars)
    (available : bar.availableAt ≤ call.asOf) (values) :
    Shows archive policy call bar.key values ↔
      (priceRecord bar (asofFactor archive policy bar call.asOf) false bar.availableAt).values =
        values := by
  constructor
  · intro shown
    generalize same : bar.key = key at shown
    cases shown with
    | available viewed =>
      obtain ⟨also, -, values⟩ := viewed_values viewed
      rw [bar_of_key stored also same]
      exact values
    | opening also today =>
      rw [bar_of_key stored also same] at available
      exact absurd available (not_le.mpr today.2.2)
  · rintro rfl
    have viewed : _ ∈ asofSplitAdjustedBars archive policy call.asOf :=
      List.mem_map_of_mem (List.mem_filter.mpr ⟨stored, decide_eq_true available⟩)
    obtain ⟨-, -, values⟩ := viewed_values viewed
    rw [values]
    exact .available viewed

theorem shows_early {call : Call} {bar : Bar} (stored : bar ∈ archive.bars)
    (early : call.asOf < bar.availableAt) (values) :
    Shows archive policy call bar.key values ↔
      OpensToday archive call bar ∧
        (priceRecord bar (asofFactor archive policy bar call.asOf) true call.asOf).values =
          values := by
  constructor
  · intro shown
    generalize same : bar.key = key at shown
    cases shown with
    | available viewed =>
      obtain ⟨also, available, -⟩ := viewed_values viewed
      rw [← bar_of_key stored also same] at available
      exact absurd available (not_le.mpr early)
    | opening also today =>
      rw [bar_of_key stored also same]
      exact ⟨today, rfl⟩
  · rintro ⟨today, rfl⟩
    exact .opening stored today

theorem shows_bar {call : Call} {key : String × Int} {values}
    (shown : Shows archive policy call key values) : ∃ bar ∈ archive.bars, bar.key = key := by
  cases shown with
  | available viewed => exact ⟨_, (viewed_values viewed).1, rfl⟩
  | opening stored _ => exact ⟨_, stored, rfl⟩

end Views

section Calls

/-- The tables between two calls: securities are recorded with the splits known at the
watermark, and every bar that was available then stands on their scale. -/
structure Sound (archive : Archive) (policy : KnowledgePolicy) (store : Store) : Prop where
  scaled : ∀ securityId row, store.scaleState.lookup securityId = some row →
    ∃ watermark ∈ store.watermark, row.2 = knownSplitIds archive policy watermark securityId
  named : ∀ securityId row, store.scaleState.lookup securityId = some row →
    ∃ bar ∈ archive.bars, bar.securityId = securityId ∧ bar.ticker = row.1
  covered : ∀ bar ∈ archive.bars, Past store bar →
    (store.scaleState.lookup bar.securityId).isSome
  shown : ∀ bar ∈ archive.bars, ∀ watermark ∈ store.watermark, bar.availableAt ≤ watermark →
    store.prices.lookup bar.key =
      some (priceRecord bar (asofFactor archive policy bar watermark) false bar.availableAt)
  keyed : ∀ key row, store.prices.lookup key = some row → ∃ bar ∈ archive.bars, bar.key = key

theorem sound_empty : Sound archive policy Store.empty where
  scaled := by simp [Store.empty]
  named := by simp [Store.empty]
  covered := by simp [Store.empty, Past]
  shown := by simp [Store.empty]
  keyed := by simp [Store.empty]

variable {store : Store} {call : Call}

theorem rewritten_of_ticker (sound : Sound archive policy store) {bar : Bar}
    (stored : bar ∈ archive.bars)
    (deleted : bar.ticker ∈ rewriteTickers archive policy store call.asOf) :
    bar.securityId ∈ rewriteIds archive policy store call.asOf := by
  obtain ⟨securityId, rescaled, row, found, same⟩ := mem_rewriteTickers.mp deleted
  obtain ⟨other, also, security, ticker⟩ := sound.named securityId row found
  rw [archive.oneSecurity bar stored other also (same.symm.trans ticker.symm), security]
  exact rescaled

theorem same_scale (sound : Sound archive policy store) {bar : Bar} (stored : bar ∈ archive.bars)
    {watermark : Int} (current : watermark ∈ store.watermark)
    (available : bar.availableAt ≤ watermark)
    (kept : bar.securityId ∉ rewriteIds archive policy store call.asOf) :
    asofFactor archive policy bar watermark = asofFactor archive policy bar call.asOf := by
  apply asofFactor_congr
  obtain ⟨row, recorded⟩ := Option.isSome_iff_exists.mp
    (sound.covered bar stored ⟨watermark, current, available⟩)
  obtain ⟨other, alsoCurrent, scaled⟩ := sound.scaled _ _ recorded
  obtain rfl := Option.mem_unique alsoCurrent current
  rw [← scaled]
  by_contra changed
  exact kept (mem_rewriteIds.mpr ⟨row, recorded, changed⟩)

/-- The prices that a call leaves. -/
def rewrittenPrices (archive : Archive) (policy : KnowledgePolicy) (store : Store) (call : Call) :
    Table (String × Int) PriceRow :=
  insertRecords archive policy call.asOf
    (filterRows (fun key _ => key.1 ∉ rewriteTickers archive policy store call.asOf) store.prices)
    (additions archive policy store call)

/-- The tables that a call leaves. -/
def rewritten (archive : Archive) (policy : KnowledgePolicy) (store : Store) (call : Call) : Store :=
  ⟨rewrittenPrices archive policy store call,
    updateScale archive policy store call.asOf (additions archive policy store call),
    some call.asOf⟩

theorem rewritePrivatePrices_ok (ordered : ∀ watermark ∈ store.watermark, watermark ≤ call.asOf) :
    rewritePrivatePrices archive policy store call = .ok (rewritten archive policy store call) := by
  apply if_neg
  rintro ⟨watermark, current, later⟩
  exact absurd (ordered watermark current) (not_le.mpr later)

/-- A call that succeeds leaves these tables. -/
theorem rewritePrivatePrices_next {next : Store}
    (called : rewritePrivatePrices archive policy store call = .ok next) :
    next = rewritten archive policy store call := by
  unfold rewritePrivatePrices at called
  split at called
  · cases called
  · exact (Except.ok.inj called).symm

/-- A bar that is written has the row it is written with. -/
theorem lookup_added {addition : Addition}
    (listed : addition ∈ additions archive policy store call) :
    (rewrittenPrices archive policy store call).lookup addition.bar.key =
      some (priceRecord addition.bar (asofFactor archive policy addition.bar call.asOf)
        addition.openOnly addition.visibleAt) :=
  lookup_insertRecords listed fun _ also same => additions_only listed also same

/-- A bar that is not written keeps its row, if its ticker is not deleted. -/
theorem lookup_left {bar : Bar} (stored : bar ∈ archive.bars)
    (left : ∀ addition ∈ additions archive policy store call, addition.bar ≠ bar) :
    (rewrittenPrices archive policy store call).lookup bar.key =
      if bar.ticker ∈ rewriteTickers archive policy store call.asOf then none
      else store.prices.lookup bar.key := by
  have others : ∀ addition ∈ additions archive policy store call, addition.bar.key ≠ bar.key := by
    intro addition listed same
    exact left addition listed (bar_of_key (mem_additions.mp listed).1 stored same)
  rw [rewrittenPrices, lookup_insertRecords_ne others, lookup_filterRows]
  split
  · rename_i deleted
    cases store.prices.lookup bar.key <;> simp [Bar.key, deleted]
  · rename_i kept
    cases store.prices.lookup bar.key <;> simp [Bar.key, kept]

/-- After a call every available bar has its full row on the scale of the call. -/
theorem lookup_available (sound : Sound archive policy store) {bar : Bar}
    (stored : bar ∈ archive.bars) (available : bar.availableAt ≤ call.asOf) :
    (rewrittenPrices archive policy store call).lookup bar.key =
      some (priceRecord bar (asofFactor archive policy bar call.asOf) false bar.availableAt) := by
  by_cases written : bar.securityId ∈ rewriteIds archive policy store call.asOf ∨ ¬ Past store bar
  · have listed : ⟨bar, false, bar.availableAt⟩ ∈ additions archive policy store call :=
      mem_additions.mpr ⟨stored, .inl ⟨available, written, rfl, rfl⟩⟩
    exact lookup_added listed
  · obtain ⟨kept, past⟩ := not_or.mp written
    have left : ∀ addition ∈ additions archive policy store call, addition.bar ≠ bar := by
      rintro addition listed rfl
      rcases (mem_additions.mp listed).2 with ⟨-, again, -, -⟩ | ⟨-, -, early, -, -⟩
      · exact written again
      · exact absurd available (not_le.mpr early)
    obtain ⟨watermark, current, before⟩ := not_not.mp past
    rw [lookup_left stored left,
      if_neg fun deleted => kept (rewritten_of_ticker sound stored deleted),
      sound.shown bar stored watermark current before, same_scale sound stored current before kept]

/-- After a call a bar that is not available has its open, on its day; else it has what it
had, if its ticker is not deleted. -/
theorem lookup_early {bar : Bar} (stored : bar ∈ archive.bars)
    (early : call.asOf < bar.availableAt) :
    (rewrittenPrices archive policy store call).lookup bar.key =
      if OpensToday archive call bar then
        some (priceRecord bar (asofFactor archive policy bar call.asOf) true call.asOf)
      else if bar.ticker ∈ rewriteTickers archive policy store call.asOf then none
      else store.prices.lookup bar.key := by
  split
  · rename_i today
    have listed : ⟨bar, true, call.asOf⟩ ∈ additions archive policy store call :=
      mem_additions.mpr ⟨stored, .inr ⟨today.1, today.2.1, early, rfl, rfl⟩⟩
    exact lookup_added listed
  · rename_i other
    apply lookup_left stored
    rintro addition listed rfl
    rcases (mem_additions.mp listed).2 with ⟨available, -⟩ | ⟨opens, day, -⟩
    · exact absurd available (not_le.mpr early)
    · exact other ⟨opens, day, early⟩

theorem rewrittenPrices_keyed (sound : Sound archive policy store) {key : String × Int}
    {row : PriceRow} (found : (rewrittenPrices archive policy store call).lookup key = some row) :
    ∃ bar ∈ archive.bars, bar.key = key := by
  by_cases written : ∃ addition ∈ additions archive policy store call, addition.bar.key = key
  · obtain ⟨addition, listed, same⟩ := written
    exact ⟨addition.bar, (mem_additions.mp listed).1, same⟩
  · have others : ∀ addition ∈ additions archive policy store call, addition.bar.key ≠ key :=
      fun addition listed same => written ⟨addition, listed, same⟩
    rw [rewrittenPrices, lookup_insertRecords_ne others, lookup_filterRows,
      Option.filter_eq_some_iff] at found
    exact sound.keyed key row found.1

/-- A call keeps the tables sound. -/
theorem rewritePrivatePrices_sound (sound : Sound archive policy store) :
    Sound archive policy (rewritten archive policy store call) where
  scaled := by
    intro securityId row found
    exact ⟨call.asOf, rfl, (lookup_updateScale found).1⟩
  named := by
    intro securityId row found
    rcases (lookup_updateScale found).2 with ⟨old, recorded, same⟩ | ⟨addition, listed, rfl, same⟩
    · rw [← same]
      exact sound.named securityId old recorded
    · exact ⟨addition.bar, (mem_additions.mp listed).1, rfl, same⟩
  covered := by
    rintro bar stored ⟨watermark, current, available⟩
    obtain rfl : call.asOf = watermark := Option.mem_some_iff.mp current
    by_cases past : Past store bar
    · exact updateScale_keeps (sound.covered bar stored past)
    · have listed : ⟨bar, false, bar.availableAt⟩ ∈ additions archive policy store call :=
        mem_additions.mpr ⟨stored, .inl ⟨available, .inr past, rfl, rfl⟩⟩
      exact updateScale_covers listed
  shown := by
    intro bar stored watermark current available
    obtain rfl : call.asOf = watermark := Option.mem_some_iff.mp current
    exact lookup_available sound stored available
  keyed := fun key row found => rewrittenPrices_keyed sound found

/-- After a call the table has exactly the rows of the view if and only if every bar that
stood in it and is not available belongs to the day's open or was deleted. -/
theorem rewritePrivatePrices_exact (sound : Sound archive policy store) :
    Exact archive policy (rewritten archive policy store call) call ↔
      Settled archive policy store call := by
  rw [Exact, rewritten]
  constructor
  · intro exactly bar stored early found
    obtain ⟨row, found⟩ := Option.isSome_iff_exists.mp found
    by_contra left
    obtain ⟨other, kept⟩ := not_or.mp left
    have stays : (rewrittenPrices archive policy store call).lookup bar.key = some row := by
      rw [lookup_early stored early, if_neg other, if_neg kept, found]
    have shown := (exactly bar.key row.values).mp ⟨row, stays, rfl⟩
    exact other ((shows_early stored early _).mp shown).1
  · intro settled key values
    by_cases known : ∃ bar ∈ archive.bars, bar.key = key
    · obtain ⟨bar, stored, rfl⟩ := known
      rcases le_or_gt bar.availableAt call.asOf with available | early
      · rw [shows_available stored available, lookup_available sound stored available]
        simp
      · rw [shows_early stored early, lookup_early stored early]
        split
        · rename_i today
          simp [today]
        · rename_i other
          have gone : (if bar.ticker ∈ rewriteTickers archive policy store call.asOf then none
              else store.prices.lookup bar.key) = none := by
            split
            · rfl
            · rename_i kept
              by_contra found
              rcases settled bar stored early (Option.isSome_iff_ne_none.mpr found) with
                today | deleted
              · exact other today
              · exact kept deleted
          simp [gone, other]
    · constructor
      · rintro ⟨row, found, -⟩
        exact absurd (rewrittenPrices_keyed sound found) known
      · intro shown
        exact absurd (shows_bar shown) known

end Calls

section Runs

/-- A visited call starts from sound tables whose watermark is not after it. -/
theorem visited_sound {calls : List Call}
    (ordered : calls.Pairwise fun earlier later => earlier.asOf ≤ later.asOf) :
    ∀ visit ∈ visitedM (rewritePrivatePrices archive policy) Store.empty calls,
      Sound archive policy visit.1 ∧
        ∀ watermark ∈ visit.1.watermark, watermark ≤ visit.2.asOf := by
  intro visit listed
  refine visitedM_before (fun store : Store => Sound archive policy store ∧
    ∀ watermark ∈ store.watermark, watermark ≤ visit.2.asOf) ordered
    ⟨sound_empty, by simp [Store.empty]⟩ visit listed ?_
  rintro earlier - before next ⟨sound, -⟩ called
  rw [rewritePrivatePrices_next called]
  refine ⟨rewritePrivatePrices_sound sound, ?_⟩
  intro watermark current
  obtain rfl : earlier.2.asOf = watermark := Option.mem_some_iff.mp current
  exact before

/-- A visited call succeeds with exactly the rows of the view if and only if it leaves no
row of a bar behind that the view does not have. -/
theorem visited_exact {calls : List Call}
    (ordered : calls.Pairwise fun earlier later => earlier.asOf ≤ later.asOf) {visit : Store × Call}
    (listed : visit ∈ visitedM (rewritePrivatePrices archive policy) Store.empty calls) :
    (∃ next, rewritePrivatePrices archive policy visit.1 visit.2 = .ok next ∧
      Exact archive policy next visit.2) ↔ Settled archive policy visit.1 visit.2 := by
  obtain ⟨sound, clock⟩ := visited_sound ordered visit listed
  rw [← rewritePrivatePrices_exact sound]
  constructor
  · rintro ⟨next, called, shown⟩
    rw [← rewritePrivatePrices_next called]
    exact shown
  · intro shown
    exact ⟨_, rewritePrivatePrices_ok clock, shown⟩

/-- In a replay whose clock does not go back, every call succeeds and leaves exactly the
rows of the view, if and only if no call leaves the row of a bar behind that is neither
available nor one of the day's open. -/
theorem incrementalPrices_exact (archive : Archive) (policy : KnowledgePolicy) (calls : List Call)
    (ordered : calls.Pairwise fun earlier later => earlier.asOf ≤ later.asOf) :
    (∀ visit ∈ visitedM (rewritePrivatePrices archive policy) Store.empty calls,
      ∃ next, rewritePrivatePrices archive policy visit.1 visit.2 = .ok next ∧
        Exact archive policy next visit.2) ↔
      ∀ visit ∈ visitedM (rewritePrivatePrices archive policy) Store.empty calls,
        Settled archive policy visit.1 visit.2 :=
  forall₂_congr fun _ listed => visited_exact ordered listed

/-- A stock that splits two for one; its bars come an hour and a quarter after the close. -/
def splitArchive : Archive where
  zone := daylightTime
  bars := [739041, 739042].map fun session =>
    ⟨"aaa", "AAA", session, closed daylightTime session + 75 * minute, 98, 104, 96, 102, some 1000⟩
  actions := [⟨"AAA:split", "aaa", 739042, .trusted, 2⟩]
  oneBar := by decide
  oneSecurity := by decide
  oneAction := by decide

/-- The day of the split: before the open, at the open and once its bar is available. -/
def splitDay : List Call :=
  [⟨opened daylightTime 739042 - 25 * minute, .preopen⟩, ⟨opened daylightTime 739042, .open_⟩,
    ⟨closed daylightTime 739042 + 75 * minute, .close⟩]

theorem splitDay_exact :
    (visitedM (rewritePrivatePrices splitArchive .primary) Store.empty splitDay).length = 3 ∧
      ∀ visit ∈ visitedM (rewritePrivatePrices splitArchive .primary) Store.empty splitDay,
        ∃ next, rewritePrivatePrices splitArchive .primary visit.1 visit.2 = .ok next ∧
          Exact splitArchive .primary next visit.2 :=
  ⟨by decide +kernel,
    (incrementalPrices_exact splitArchive .primary splitDay (by decide)).mpr (by decide +kernel)⟩

/-- The close is taken a minute before the day's bar is available. -/
def hastyDay : List Call :=
  [⟨opened daylightTime 739042, .open_⟩, ⟨closed daylightTime 739042 + 74 * minute, .close⟩]

/-- The open of the day's bar is still in the table at the close. -/
theorem hastyDay_inexact :
    ¬ ∀ (archive : Archive) (policy : KnowledgePolicy) (calls : List Call),
      (calls.Pairwise fun earlier later => earlier.asOf ≤ later.asOf) →
        ∀ visit ∈ visitedM (rewritePrivatePrices archive policy) Store.empty calls,
          ∃ next, rewritePrivatePrices archive policy visit.1 visit.2 = .ok next ∧
            Exact archive policy next visit.2 := by
  intro claimed
  have ordered : hastyDay.Pairwise fun earlier later => earlier.asOf ≤ later.asOf := by decide
  have settled : ∀ visit ∈ visitedM (rewritePrivatePrices splitArchive .primary) Store.empty
      hastyDay, Settled splitArchive .primary visit.1 visit.2 := fun visit listed =>
    (visited_exact ordered listed).mp (claimed splitArchive .primary hastyDay ordered visit listed)
  revert settled
  decide +kernel

end Runs

end TradingEngine.AsOf
