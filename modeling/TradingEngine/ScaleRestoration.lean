import TradingEngine.SplitScales

/-!
# The restoration of one scale

A split adjudication restores one scale exactly when the break is told from the islands before
it. When another session is taken for the break, the bars between the two stay on the old scale,
and an island with which the window begins is divided like the bars around it.
-/

namespace TradingEngine.PriceStore

open KeyedTables Ledger

section Decision

variable {world : World} {now : Instant} {store : Store} {split : Key × ℚ} {scales : Scales}

theorem map_mul_div {ratio : ℚ} (nonzero : ratio ≠ 0) (cell : Cell) :
    (cell.map (· * ratio)).map (· / ratio) = cell := by
  cases cell with
  | number value => exact congrArg Cell.number (mul_div_cancel_right₀ value nonzero)
  | null => rfl
  | nonfinite name => rfl
  | text characters => rfl

theorem OnOldScale.restated {ratio : ℚ} {stored truth : Quote} (nonzero : ratio ≠ 0)
    (scale : OnOldScale ratio stored truth) : restatedQuote roundHalfAway ratio stored = truth := by
  obtain ⟨opening, high, low, close, volume⟩ := scale
  unfold restatedQuote
  rw [opening, high, low, close, volume, map_mul_div nonzero, map_mul_div nonzero,
    map_mul_div nonzero, map_mul_div nonzero]

theorem restated_ne {ratio close : ℚ} {round : ℚ → Int} {quote : Quote}
    (separate : ratio < 25 / 36 ∨ 36 / 25 < ratio) (positive : 0 < ratio) (priced : 0 < close)
    (shape : quote.close = .number close) : restatedQuote round ratio quote ≠ quote := by
  intro same
  have closes : (restatedQuote round ratio quote).close = quote.close := congrArg Quote.close same
  unfold restatedQuote at closes
  rw [shape] at closes
  have divided : close / ratio = close := Cell.number.inj closes
  rw [div_eq_iff positive.ne'] at divided
  rcases separate with small | large <;> nlinarith

variable {breakDate : Date}

/-- Restatements that reach the same bars do the same. -/
theorem restate_congr {keep other : List Date}
    (same : ∀ day, day ∈ keep ↔ day ∈ other) :
    restate world now (restatementOf split breakDate keep) store =
      restate world now (restatementOf split breakDate other) store := by
  have reaches : (restatementOf split breakDate keep).reaches =
      (restatementOf split breakDate other).reaches := by
    funext key
    unfold Restatement.reaches restates restatementOf
    dsimp only
    congr 2
    rw [Bool.eq_iff_iff, List.contains_iff_mem, List.contains_iff_mem]
    exact same key.2
  have previous : (restatementOf split breakDate keep).previous store =
      (restatementOf split breakDate other).previous store := by
    unfold Restatement.previous
    rw [reaches]
  have adjustments : (restatementOf split breakDate keep).adjustments now store =
      (restatementOf split breakDate other).adjustments now store := by
    unfold Restatement.adjustments
    rw [previous]
    rfl
  have portfolios : (restatementOf split breakDate keep).portfolios world now store =
      (restatementOf split breakDate other).portfolios world now store := by
    unfold Restatement.portfolios
    rw [adjustments]
    rfl
  have written : (restatementOf split breakDate keep).written now store =
      (restatementOf split breakDate other).written now store := by
    funext rebuilt
    unfold Restatement.written
    rw [adjustments, previous, reaches]
    rfl
  unfold restate
  rw [previous, portfolios, written]
  rfl

theorem recorded_ne_applied {ticker : String} {exDate : Date} {ratio : ℚ} {outcome : Outcome}
    {breakDate : Option Date} {observed : Option ℚ}
    (verdict : adjudicate store ticker exDate ratio = .recorded outcome breakDate observed) :
    outcome ≠ .applied := by
  rintro rfl
  unfold adjudicate at verdict
  dsimp only at verdict
  repeat' split at verdict
  all_goals try cases verdict
  unfold adjudicateBreak at verdict
  dsimp only at verdict
  split at verdict <;> cases verdict

theorem applied_restated {next : Store} (decided : decideSplit world now split store = .ok next)
    (applied : (next.adjustments.lookup split.1).map Adjustment.outcome = some .applied) :
    ∃ breakDate observed keep,
      adjudicate store split.1.1 split.1.2 split.2 = .appliedPending breakDate observed keep ∧
      restate world now (restatementOf split breakDate keep) store = .ok next := by
  unfold decideSplit at decided
  cases verdict : adjudicate store split.1.1 split.1.2 split.2 with
  | appliedPending breakDate observed keep =>
    rw [verdict] at decided
    exact ⟨breakDate, observed, keep, rfl, decided⟩
  | recorded outcome breakDate observed =>
    rw [verdict] at decided
    cases decided
    rw [AList.lookup_insert, Option.map_some] at applied
    exact absurd (Option.some.inj applied) (recorded_ne_applied verdict)

theorem Mixed.break_position (mixed : Mixed store split scales) :
    ∃ i one two, (sessionWindow store split.1.1 split.1.2)[i]? = some one ∧
      (sessionWindow store split.1.1 split.1.2)[i + 1]? = some two ∧
      scales.old one.date = true ∧ two.date = scales.breakDate ∧
      sessionIndex (sessionWindow store split.1.1 split.1.2) scales.breakDate = i + 1 := by
  obtain ⟨i, one, two, first, second, isOld, same⟩ := mixed.breaks
  refine ⟨i, one, two, first, second, isOld, same, ?_⟩
  rw [← same]
  exact sessionIndex_date sessionWindow_sorted second

theorem Scales.lt_of_old {day : Date} (isOld : scales.old day = true) : day < scales.breakDate := by
  unfold Scales.old at isOld
  rw [Bool.and_eq_true, decide_eq_true_eq] at isOld
  exact isOld.1

theorem Scales.not_old_break : scales.old scales.breakDate = false := by
  unfold Scales.old
  rw [decide_eq_false (lt_irrefl _), Bool.false_and]

theorem Scales.old_eq_false_iff {day : Date} (before : day < scales.breakDate) :
    scales.old day = false ↔ day ∈ scales.islands := by
  unfold Scales.old
  rw [decide_eq_true before, Bool.true_and, Bool.not_eq_false', List.contains_iff_mem]

theorem Mixed.newBefore_iff (mixed : Mixed store split scales) (day : Date) :
    NewBefore (sessionWindow store split.1.1 split.1.2) scales.old
      (sessionIndex (sessionWindow store split.1.1 split.1.2) scales.breakDate) day ↔
      day ∈ scales.islands := by
  obtain ⟨i, one, two, first, second, isOld, same, place⟩ := mixed.break_position
  rw [place]
  constructor
  · rintro ⟨j, bar, before, found, rfl, new⟩
    have earlier := (date_lt_iff sessionWindow_sorted found second).mpr before
    exact (Scales.old_eq_false_iff (same ▸ earlier)).mp new
  · intro listed
    obtain ⟨before, bar, inside, rfl⟩ := mixed.inside day listed
    obtain ⟨j, found⟩ := List.mem_iff_getElem?.mp inside
    refine ⟨j, bar, ?_, found, rfl, (Scales.old_eq_false_iff before).mpr listed⟩
    exact (date_lt_iff sessionWindow_sorted found second).mp (same ▸ before)

variable {recent : Bool}

theorem Mixed.candidate_break (mixed : Mixed store split scales) :
    Candidate (sessionWindow store split.1.1 split.1.2) split.2
      (sessionIndex (sessionWindow store split.1.1 split.1.2) split.1.2) recent
      (sessionIndex (sessionWindow store split.1.1 split.1.2) scales.breakDate) := by
  obtain ⟨i, one, two, first, second, isOld, same, place⟩ := mixed.break_position
  refine ⟨⟨one, two, ?_, ?_, ?_⟩, .inl mixed.nearby⟩
  · rwa [place, Nat.add_sub_cancel]
  · rwa [place]
  · apply (mixed.entry_iff first second).mpr
    exact ⟨isOld, same ▸ Scales.not_old_break⟩

/-- Any candidate but the break is the entry of an island before it. -/
theorem Mixed.candidate_cases (mixed : Mixed store split scales) {i : Nat}
    (fit : Candidate (sessionWindow store split.1.1 split.1.2) split.2
      (sessionIndex (sessionWindow store split.1.1 split.1.2) split.1.2) recent (i + 1)) :
    i + 1 = sessionIndex (sessionWindow store split.1.1 split.1.2) scales.breakDate ∨
      ∃ one two, (sessionWindow store split.1.1 split.1.2)[i]? = some one ∧
        (sessionWindow store split.1.1 split.1.2)[i + 1]? = some two ∧
        scales.old one.date = true ∧ two.date ∈ scales.islands ∧
        two.date < scales.breakDate := by
  obtain ⟨j, -, broken, -, found, -, same, place⟩ := mixed.break_position
  obtain ⟨⟨one, two, first, second, matched⟩, -⟩ := fit
  rw [Nat.add_sub_cancel] at first
  obtain ⟨isOld, isNew⟩ := (mixed.entry_iff first second).mp matched
  by_cases before : two.date < scales.breakDate
  · right
    exact ⟨one, two, first, second, isOld, (Scales.old_eq_false_iff before).mp isNew, before⟩
  · left
    have early := Scales.lt_of_old isOld
    rw [← same] at early before
    have less := (date_lt_iff sessionWindow_sorted first found).mp early
    have notLess := mt (date_lt_iff sessionWindow_sorted second found).mpr before
    rw [place]
    omega

/-- With bars on both sides of the ex-date the first of the nearest candidates is taken for
the break. -/
theorem Mixed.adjudicate_eq (mixed : Mixed store split scales)
    (earlier : ∃ bar ∈ store.prices.entries, bar.1.1 = split.1.1 ∧ bar.1.2 < split.1.2)
    (reached : sessionIndex (sessionWindow store split.1.1 split.1.2) split.1.2 <
      (sessionWindow store split.1.1 split.1.2).length) :
    ∃ recent found, Nearest (sessionWindow store split.1.1 split.1.2) split.2
        (sessionIndex (sessionWindow store split.1.1 split.1.2) split.1.2) recent
        (sessionWindow store split.1.1 split.1.2).length (some found) ∧
      adjudicate store split.1.1 split.1.2 split.2 =
        adjudicateBreak store split.1.1 split.1.2 split.2
          (sessionWindow store split.1.1 split.1.2) found := by
  obtain ⟨bar, listed, own, before⟩ := earlier
  have day : bar.1.2 ∈ (store.prices.keys.filter fun key => key.1 = split.1.1).map Prod.snd := by
    apply List.mem_map_of_mem
    exact List.mem_filter.mpr ⟨AList.mem_keys.mp (AList.lookup_isSome.mp
      (by rw [lookup_of_mem listed]; rfl)), decide_eq_true own⟩
  have separate : apart split.2 = true := by
    unfold apart
    rw [Bool.or_eq_true, decide_eq_true_eq, decide_eq_true_eq]
    rcases mixed.separate with small | large
    · right
      linarith
    · left
      exact large.le
  obtain ⟨i, one, two, -, second, -, -, place⟩ := mixed.break_position
  obtain ⟨inside, -⟩ := List.getElem?_eq_some_iff.mp second
  rw [← place] at inside
  have positive : 1 ≤ sessionIndex (sessionWindow store split.1.1 split.1.2) scales.breakDate := by
    omega
  have long : 2 ≤ (sessionWindow store split.1.1 split.1.2).length := by omega
  have nearest (recent : Bool) := scan_nearest split.2
    (sessionIndex (sessionWindow store split.1.1 split.1.2) split.1.2) recent mixed.priced long
  unfold adjudicate
  dsimp only
  rw [if_neg (not_le.mpr mixed.positive), separate, Bool.not_true, if_neg Bool.false_ne_true,
    if_neg (List.ne_nil_of_mem day), if_neg ?_, if_neg ?_]
  · generalize decide (_ ≤ 10) = recent
    have first := nearest recent
    unfold sessionIndex at first
    split
    · rename_i _ _ found near
      rw [near] at first
      exact ⟨recent, found, first, rfl⟩
    · rename_i near _
      exact absurd mixed.candidate_break (first.missing near _ positive inside)
    · rename_i near _
      exact absurd mixed.candidate_break (first.missing near _ positive inside)
  · rw [not_or, not_lt, not_le]
    exact ⟨long, reached⟩
  · intro late
    have onOrAfter := List.all_eq_true.mp late _ day
    exact absurd before (not_lt.mpr (of_decide_eq_true onOrAfter))

/-- What is recorded of a split without bars on both sides of its ex-date. -/
theorem straddles_of_pending {observed : ℚ} {keep : List Date}
    (verdict : adjudicate store split.1.1 split.1.2 split.2 =
      .appliedPending breakDate observed keep) :
    (∃ bar ∈ store.prices.entries, bar.1.1 = split.1.1 ∧ bar.1.2 < split.1.2) ∧
      sessionIndex (sessionWindow store split.1.1 split.1.2) split.1.2 <
        (sessionWindow store split.1.1 split.1.2).length := by
  unfold adjudicate at verdict
  dsimp only at verdict
  split at verdict
  · cases verdict
  split at verdict
  · cases verdict
  split at verdict
  · cases verdict
  split at verdict
  · cases verdict
  rename_i mixedDates
  split at verdict
  · cases verdict
  rename_i long
  constructor
  · rw [List.all_eq_true, not_forall] at mixedDates
    obtain ⟨day, unfit⟩ := mixedDates
    obtain ⟨listed, early⟩ := Classical.not_imp.mp unfit
    obtain ⟨key, kept, rfl⟩ := List.mem_map.mp listed
    obtain ⟨stored, own⟩ := List.mem_filter.mp kept
    obtain ⟨row, found⟩ := Option.isSome_iff_exists.mp (AList.lookup_isSome.mpr stored)
    refine ⟨_, mem_of_lookup found, of_decide_eq_true own, ?_⟩
    exact not_le.mp fun late => early (decide_eq_true late)
  · rw [not_or, not_le] at long
    exact long.2

theorem Mixed.date_eq (mixed : Mixed store split scales) {found : Break}
    (date : (sessionWindow store split.1.1 split.1.2)[found.index]?.map WindowBar.date =
      some found.date)
    (index : found.index =
      sessionIndex (sessionWindow store split.1.1 split.1.2) scales.breakDate) :
    found.date = scales.breakDate := by
  obtain ⟨i, one, two, -, second, -, same, place⟩ := mixed.break_position
  rw [index, place, second, Option.map_some, Option.some.injEq] at date
  rw [← date, same]

/-- The first of the nearest candidates is the break or the entry of an island that is at
least as near to the ex-date. -/
theorem Mixed.nearest_cases (mixed : Mixed store split scales) {found : Break}
    (nearest : Nearest (sessionWindow store split.1.1 split.1.2) split.2
      (sessionIndex (sessionWindow store split.1.1 split.1.2) split.1.2) recent
      (sessionWindow store split.1.1 split.1.2).length (some found)) :
    found.index = sessionIndex (sessionWindow store split.1.1 split.1.2) scales.breakDate ∨
      ∃ i one two, found.index = i + 1 ∧ (sessionWindow store split.1.1 split.1.2)[i]? = some one ∧
        (sessionWindow store split.1.1 split.1.2)[i + 1]? = some two ∧
        scales.old one.date = true ∧ two.date ∈ scales.islands ∧ found.date < scales.breakDate ∧
        |((i + 1 : Nat) : Int) - sessionIndex (sessionWindow store split.1.1 split.1.2) split.1.2| ≤
          |(sessionIndex (sessionWindow store split.1.1 split.1.2) scales.breakDate : Int) -
            sessionIndex (sessionWindow store split.1.1 split.1.2) split.1.2| := by
  obtain ⟨positive, -, fit, distance, date⟩ := nearest.placed found rfl
  obtain ⟨index, shape⟩ := Nat.exists_eq_add_of_le' positive
  rw [shape] at fit date distance
  rcases mixed.candidate_cases fit with same | ⟨one, two, first, second, isOld, listed, before⟩
  · left
    rw [shape, same]
  · right
    refine ⟨index, one, two, shape, first, second, isOld, listed, ?_, ?_⟩
    · rw [second, Option.map_some, Option.some.injEq] at date
      rwa [← date]
    · obtain ⟨j, -, broken, -, place', -, -, place⟩ := mixed.break_position
      obtain ⟨inside, -⟩ := List.getElem?_eq_some_iff.mp place'
      have least := nearest.least found rfl _ (by omega) (place ▸ inside) mixed.candidate_break
      rw [← distance]
      rcases least with nearer | ⟨equal, -⟩
      · exact nearer.le
      · exact equal.le

theorem Mixed.islands_found (mixed : Mixed store split scales)
    (begins : ∀ bar, (sessionWindow store split.1.1 split.1.2)[0]? = some bar →
      scales.old bar.date = true) (day : Date) :
    day ∈ newScaleIslands (closesBefore (sessionWindow store split.1.1 split.1.2)
        (sessionIndex (sessionWindow store split.1.1 split.1.2) scales.breakDate)) split.2 ↔
      day ∈ scales.islands := by
  obtain ⟨i, one, two, first, second, isOld, same, place⟩ := mixed.break_position
  obtain ⟨inside, -⟩ := List.getElem?_eq_some_iff.mp second
  rw [← mixed.newBefore_iff day]
  apply mem_newScaleIslands mixed.legible (by omega) mixed.short begins (by omega)
  intro bar found
  rw [place, Nat.add_sub_cancel, first] at found
  cases found
  exact isOld

theorem any_max?_eq_false {days : List Date} {test : Date → Bool}
    (refused : ∀ day ∈ days, test day = false) : days.max?.any test = false := by
  cases latest : days.max? with
  | none => rfl
  | some day => exact refused day (List.max?_mem latest)

/-- A break that is told from the islands is found with all of them. -/
theorem Mixed.adjudicate_break (mixed : Mixed store split scales)
    (distinct : Distinct world now store split scales) :
    ∃ observed keep, adjudicate store split.1.1 split.1.2 split.2 =
        .appliedPending scales.breakDate observed keep ∧
      ∀ day, day ∈ keep ↔ day ∈ scales.islands := by
  obtain ⟨recent, found, nearest, verdict⟩ := mixed.adjudicate_eq distinct.earlier distinct.reached
  have index : found.index =
      sessionIndex (sessionWindow store split.1.1 split.1.2) scales.breakDate := by
    rcases mixed.nearest_cases nearest with
      same | ⟨i, one, two, -, first, second, isOld, listed, -, near⟩
    · exact same
    · exact absurd (distinct.farther i one two first second isOld listed) (not_lt.mpr near)
  obtain ⟨-, -, -, -, dated⟩ := nearest.placed found rfl
  have date := mixed.date_eq dated index
  obtain ⟨i, one, two, first, second, isOld, same, place⟩ := mixed.break_position
  obtain ⟨inside, -⟩ := List.getElem?_eq_some_iff.mp second
  have islands (day : Date) : day ∈ newScaleIslands
      (closesBefore (sessionWindow store split.1.1 split.1.2) found.index) split.2 ↔
      day ∈ scales.islands := by
    rw [index]
    exact mixed.islands_found distinct.begins day
  rw [verdict]
  unfold adjudicateBreak
  dsimp only
  rw [if_neg, date]
  · refine ⟨found.observed, _, rfl, ?_⟩
    intro day
    rw [List.mem_insertionSort]
    exact islands day
  · rw [Bool.not_eq_true, Bool.and_eq_false_iff]
    left
    apply any_max?_eq_false
    intro day listed
    obtain ⟨instant, known, rfl⟩ := List.mem_map.mp listed
    obtain ⟨bar, kept, stored⟩ := List.mem_filterMap.mp known
    obtain ⟨before, apart⟩ := List.mem_filter.mp kept
    have early : scales.old bar.date = true := by
      obtain ⟨j, position⟩ := List.mem_iff_getElem?.mp before
      rw [List.getElem?_take] at position
      split at position
      swap
      · cases position
      have earlier := (date_lt_iff sessionWindow_sorted position second).mpr (by omega)
      rw [same] at earlier
      by_contra isNew
      rw [Bool.not_eq_true, Scales.old_eq_false_iff earlier, ← islands] at isNew
      rw [Bool.not_eq_true'] at apart
      rw [closesBefore, ← List.contains_iff_mem, apart] at isNew
      cases isNew
    have kept' := mixed.early bar (List.mem_of_mem_take before) early _ stored
    exact decide_eq_false (not_le.mpr kept')

theorem lookup_written (now : Instant) (restatement : Restatement) (portfolios : List Portfolio)
    {key : Key} {row : Row} (stored : store.prices.lookup key = some row) :
    (restatement.written now store portfolios).prices.lookup key =
      some (if restatement.reaches key then restatement.bar row else row) := by
  unfold Restatement.written
  rw [lookup_mapRows, stored, Option.map_some]

theorem restatementOf_reaches (breakDate : Date) (keep : List Date) (day : Date) :
    (restatementOf split breakDate keep).reaches (split.1.1, day) =
      (decide (day < breakDate) && !keep.contains day) := by
  unfold Restatement.reaches restates restatementOf
  dsimp only
  rw [decide_eq_true rfl, Bool.true_and]

theorem Scales.restatement_reaches (scales : Scales) (day : Date) :
    (scales.restatement split).reaches (split.1.1, day) = scales.old day :=
  restatementOf_reaches scales.breakDate scales.islands day

/-- The restatement of the old scale leaves the true bars. -/
theorem Mixed.written_true (mixed : Mixed store split scales) {portfolios : List Portfolio}
    {bar : Σ _ : Key, Row}
    (listed : bar ∈ ((scales.restatement split).written now store portfolios).prices.entries)
    (own : bar.1.1 = split.1.1) : bar.2.quote = scales.truth bar.1.2 := by
  obtain ⟨⟨ticker, day⟩, row⟩ := bar
  obtain rfl : ticker = split.1.1 := own
  have found := lookup_of_mem listed
  unfold Restatement.written at found
  rw [lookup_mapRows] at found
  obtain ⟨old, stored, shape⟩ := Option.map_eq_some_iff.mp found
  have scale := mixed.stored _ (mem_of_lookup stored) rfl
  rw [scales.restatement_reaches] at shape
  dsimp only at scale shape ⊢
  split at scale
  · rename_i isOld
    rw [if_pos isOld] at shape
    rw [← shape]
    exact scale.restated mixed.positive.ne'
  · rename_i isNew
    rw [if_neg isNew] at shape
    rw [← shape]
    exact scale

/-- A restatement that leaves the true bars in the window reaches those on the old scale and no
others. -/
theorem Mixed.reaches_eq_old (mixed : Mixed store split scales)
    {keep : List Date} {next : Store}
    (restated : restate world now (restatementOf split breakDate keep) store = .ok next)
    (whole : ∀ bar ∈ next.prices.entries, bar.1.1 = split.1.1 →
      bar.2.quote = scales.truth bar.1.2)
    {bar : WindowBar} (listed : bar ∈ sessionWindow store split.1.1 split.1.2) :
    (restatementOf split breakDate keep).reaches (split.1.1, bar.date) = scales.old bar.date := by
  obtain ⟨-, portfolios, -, rfl⟩ := restate_ok_iff.mp restated
  obtain ⟨row, stored, priced⟩ := mem_sessionWindow listed
  have scale := mixed.stored _ stored rfl
  have changed : restatedQuote roundHalfAway split.2 row.quote ≠ row.quote :=
    restated_ne mixed.separate mixed.positive (mixed.priced bar listed) priced
  have found := lookup_written now (restatementOf split breakDate keep) portfolios
    (lookup_of_mem stored)
  have left := whole _ (mem_of_lookup found) rfl
  dsimp only at scale left
  cases reached : (restatementOf split breakDate keep).reaches (split.1.1, bar.date) with
  | true =>
    rw [reached, if_pos rfl] at left
    by_contra isNew
    rw [if_neg fun isOld => isNew isOld.symm] at scale
    exact changed (left.trans scale.symm)
  | false =>
    rw [reached, if_neg Bool.false_ne_true] at left
    by_contra isOld
    rw [if_pos (by simpa using isOld)] at scale
    exact changed ((scale.restated mixed.positive.ne').trans left.symm)

theorem pending_of_break {ticker : String} {exDate : Date} {ratio observed : ℚ}
    {window : List WindowBar} {found : Break} {keep : List Date}
    (verdict : adjudicateBreak store ticker exDate ratio window found =
      .appliedPending breakDate observed keep) :
    breakDate = found.date ∧
      keep = (newScaleIslands (closesBefore window found.index) ratio).insertionSort (· ≤ ·) := by
  unfold adjudicateBreak at verdict
  dsimp only at verdict
  split at verdict
  · cases verdict
  · cases verdict
    exact ⟨rfl, rfl⟩

/-- Where the bar before the break was restated, no earlier session was taken for the break. -/
theorem Mixed.index_eq (mixed : Mixed store split scales) {found : Break}
    (nearest : Nearest (sessionWindow store split.1.1 split.1.2) split.2
      (sessionIndex (sessionWindow store split.1.1 split.1.2) split.1.2) recent
      (sessionWindow store split.1.1 split.1.2).length (some found))
    (restated : ∀ bar ∈ sessionWindow store split.1.1 split.1.2, scales.old bar.date = true →
      bar.date < found.date) :
    found.index = sessionIndex (sessionWindow store split.1.1 split.1.2) scales.breakDate := by
  rcases mixed.nearest_cases nearest with same | ⟨k, -, after, shape, -, entered, -, -, before, -⟩
  · exact same
  · obtain ⟨i, one, two, first, second, isOld, same, -⟩ := mixed.break_position
    obtain ⟨-, -, -, -, dated⟩ := nearest.placed found rfl
    rw [shape, entered, Option.map_some, Option.some.injEq] at dated
    have later := restated one (List.mem_of_getElem? first) isOld
    rw [← dated] at later before
    rw [← same] at before
    have less := (date_lt_iff sessionWindow_sorted first entered).mp later
    have more := (date_lt_iff sessionWindow_sorted entered second).mp before
    omega

theorem first_not_island {bar : WindowBar} {last : Nat}
    (head : (sessionWindow store split.1.1 split.1.2)[0]? = some bar) :
    bar.date ∉ newScaleIslands (closesBefore (sessionWindow store split.1.1 split.1.2) last)
      split.2 := by
  intro listed
  obtain ⟨entry, later, same⟩ := List.mem_map.mp (newScaleIslands_later listed)
  obtain ⟨j, found⟩ := List.mem_iff_getElem?.mp later
  rw [List.getElem?_tail, closesBefore, List.getElem?_map, List.getElem?_take] at found
  split at found
  · obtain ⟨other, position, rfl⟩ := Option.map_eq_some_iff.mp found
    have less := (date_lt_iff sessionWindow_sorted head position).mpr (Nat.succ_pos j)
    exact absurd same less.ne'
  · cases found

/-- Where the break itself was taken, every island is entered farther from the ex-date. -/
theorem Mixed.farther (mixed : Mixed store split scales) {found : Break}
    (nearest : Nearest (sessionWindow store split.1.1 split.1.2) split.2
      (sessionIndex (sessionWindow store split.1.1 split.1.2) split.1.2) recent
      (sessionWindow store split.1.1 split.1.2).length (some found))
    (index : found.index =
      sessionIndex (sessionWindow store split.1.1 split.1.2) scales.breakDate)
    {k : Nat} {before after : WindowBar}
    (earlier : (sessionWindow store split.1.1 split.1.2)[k]? = some before)
    (entered : (sessionWindow store split.1.1 split.1.2)[k + 1]? = some after)
    (isOld : scales.old before.date = true) (listed : after.date ∈ scales.islands) :
    |(sessionIndex (sessionWindow store split.1.1 split.1.2) scales.breakDate : Int) -
        sessionIndex (sessionWindow store split.1.1 split.1.2) split.1.2| <
      |((k + 1 : Nat) : Int) -
        sessionIndex (sessionWindow store split.1.1 split.1.2) split.1.2| := by
  obtain ⟨early, -⟩ := mixed.inside _ listed
  have isNew := (Scales.old_eq_false_iff early).mpr listed
  have matched := (mixed.entry_iff earlier entered).mpr ⟨isOld, isNew⟩
  obtain ⟨i, one, two, first, second, -, same, place⟩ := mixed.break_position
  have less : k + 1 < i + 1 :=
    (date_lt_iff sessionWindow_sorted entered second).mp (same ▸ early)
  obtain ⟨inside, -⟩ := List.getElem?_eq_some_iff.mp entered
  obtain ⟨-, -, -, distance, -⟩ := nearest.placed found rfl
  rw [index] at distance
  by_contra near
  have allowed := (not_lt.mp near).trans mixed.nearby
  have least := nearest.least found rfl (k + 1) (by omega) inside
    ⟨⟨before, after, earlier, entered, matched⟩, .inl allowed⟩
  rw [distance, index, place] at least
  rw [place] at near
  rcases least with nearer | ⟨-, first⟩
  · exact near nearer
  · omega

end Decision

section OneIsland

instance {ratio : ℚ} {stored truth : Quote} : Decidable (OnOldScale ratio stored truth) :=
  decidable_of_iff (stored.opening = truth.opening.map (· * ratio) ∧
      stored.high = truth.high.map (· * ratio) ∧ stored.low = truth.low.map (· * ratio) ∧
      stored.close = truth.close.map (· * ratio) ∧
      (stored.volume.map fun volume => (roundHalfAway (volume * ratio) : ℚ)) = truth.volume)
    ⟨fun ⟨opening, high, low, close, volume⟩ => ⟨opening, high, low, close, volume⟩,
      fun ⟨opening, high, low, close, volume⟩ => ⟨opening, high, low, close, volume⟩⟩

def flatQuote (price volume : ℚ) : Quote :=
  ⟨.number price, .number price, .number price, .number price, .number volume⟩

/-- A bar of fifty, stored at a hundred before the sixteenth day unless it is the island. -/
def flatBar (island day : Date) : Σ _ : Key, Row :=
  ⟨("AAA", day), if day < 16 ∧ day ≠ island then flatQuote 100 50 else flatQuote 50 100,
    "fixture", some (-1), some (-1)⟩

/-- Eighteen days around a split of two for one on the sixteenth. -/
def flatStore (island : Date) : Store :=
  { Store.empty [] with
    prices := ((List.range 18).map fun day => flatBar island day).foldl
      (fun prices bar => prices.insert bar.1 bar.2) ∅ }

def flatScales (island : Date) : Scales := ⟨fun _ => flatQuote 50 100, 16, [island]⟩

def twoForOne : Key × ℚ := (("AAA", 16), 2)

theorem flat_mixed {island : Date} (chosen : island = 1 ∨ island = 5) :
    Mixed (flatStore island) twoForOne (flatScales island) where
  positive := by decide +kernel
  separate := by decide +kernel
  stored := by rcases chosen with rfl | rfl <;> decide +kernel
  priced := by rcases chosen with rfl | rfl <;> decide +kernel
  calm _ _ _ before after _ _ beforeTrue afterTrue := by
    cases beforeTrue
    cases afterTrue
    norm_num
  breaks := by
    rcases chosen with rfl | rfl <;>
    exact ⟨14, ⟨15, 100, some (-1), some (-1)⟩, ⟨16, 50, some (-1), some (-1)⟩,
      by decide +kernel, by decide +kernel, by decide +kernel, by decide +kernel⟩
  nearby := by rcases chosen with rfl | rfl <;> decide +kernel
  inside := by rcases chosen with rfl | rfl <;> decide +kernel
  short i inside := by
    have place : sessionIndex (sessionWindow (flatStore island) "AAA" 16) 16 = 15 := by
      rcases chosen with rfl | rfl <;> decide +kernel
    have old : ∀ i < 10, ((sessionWindow (flatStore island) "AAA" 16)[i + 1]?.any fun bar =>
        (flatScales island).old bar.date) = true ∨
      ((sessionWindow (flatStore island) "AAA" 16)[i]?.any fun bar =>
        (flatScales island).old bar.date) = true := by
      rcases chosen with rfl | rfl <;> decide +kernel
    have less : i < 10 := by
      have inside' : i + 5 < sessionIndex (sessionWindow (flatStore island) "AAA" 16) 16 := inside
      omega
    rcases old i less with next | own
    · exact ⟨1, by omega, (Option.any_eq_true _ _).mp next⟩
    · exact ⟨0, by omega, (Option.any_eq_true _ _).mp own⟩
  early bar listed _ instant known := by
    have stamped : ∀ bar ∈ sessionWindow (flatStore island) "AAA" 16,
        bar.firstStored = some (-1) := by
      rcases chosen with rfl | rfl <;> decide +kernel
    have same := (stamped bar listed).symm.trans known
    cases same
    decide +kernel

end OneIsland

end TradingEngine.PriceStore
