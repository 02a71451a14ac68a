import TradingEngine.SplitReconciliation

/-!
# Split adjudication and the scale of a series

A stored series changes from the scale before a split to the one after it at a break session.
Before the break there may be islands of bars that a fetch has already stored on the new scale.
An island is entered by the same ratio as the break, so the adjudication has to tell the break
from the entries and has to find every island before it. It does so exactly when the window
begins on the old scale and no island is entered at least as near to the ex-date as the break.
-/

namespace TradingEngine.PriceStore

open KeyedTables Ledger

/-- The position of the first session of a window on or after a day. -/
def sessionIndex (window : List WindowBar) (day : Date) : Nat :=
  window.findIdx fun bar => day ≤ bar.date

/-- The figures of a bar before a split, given those after it. -/
structure OnOldScale (ratio : ℚ) (stored truth : Quote) : Prop where
  opening : stored.opening = truth.opening.map (· * ratio)
  high : stored.high = truth.high.map (· * ratio)
  low : stored.low = truth.low.map (· * ratio)
  close : stored.close = truth.close.map (· * ratio)
  volume : (stored.volume.map fun volume => (roundHalfAway (volume * ratio) : ℚ)) = truth.volume

/-- What the bars of a ticker are on the scale after a split, the session from which they are
stored so, and the earlier days that are already stored so. -/
structure Scales where
  truth : Date → Quote
  breakDate : Date
  islands : List Date

/-- The day is stored on the scale before the split. -/
def Scales.old (scales : Scales) (day : Date) : Bool :=
  decide (day < scales.breakDate) && !scales.islands.contains day

/-- A ticker's bars around a split are stored on the two scales: truly there is no large move
in the window, the break is at most five sessions from the ex-date, the islands have at most
five bars and lie in the window, and what is on the old scale was first stored before the
ex-date. -/
structure Mixed (store : Store) (split : Key × ℚ) (scales : Scales) : Prop where
  positive : 0 < split.2
  separate : split.2 < 25 / 36 ∨ 36 / 25 < split.2
  stored : ∀ bar ∈ store.prices.entries, bar.1.1 = split.1.1 →
    if scales.old bar.1.2 then OnOldScale split.2 bar.2.quote (scales.truth bar.1.2)
    else bar.2.quote = scales.truth bar.1.2
  priced : ∀ bar ∈ sessionWindow store split.1.1 split.1.2, 0 < bar.close
  calm : ∀ (i : Nat) (one two : WindowBar) (before after : ℚ),
    (sessionWindow store split.1.1 split.1.2)[i]? = some one →
    (sessionWindow store split.1.1 split.1.2)[i + 1]? = some two →
    (scales.truth one.date).close = .number before → (scales.truth two.date).close = .number after →
    25 / 27 ≤ before / after ∧ before / after ≤ 27 / 25
  breaks : ∃ (i : Nat) (one two : WindowBar), (sessionWindow store split.1.1 split.1.2)[i]? = some one ∧
    (sessionWindow store split.1.1 split.1.2)[i + 1]? = some two ∧
    scales.old one.date = true ∧ two.date = scales.breakDate
  nearby : |(sessionIndex (sessionWindow store split.1.1 split.1.2) scales.breakDate : Int) -
    sessionIndex (sessionWindow store split.1.1 split.1.2) split.1.2| ≤ 5
  inside : ∀ day ∈ scales.islands, day < scales.breakDate ∧
    ∃ bar ∈ sessionWindow store split.1.1 split.1.2, bar.date = day
  short : ∀ i, i + 5 < sessionIndex (sessionWindow store split.1.1 split.1.2) scales.breakDate →
    ∃ k ≤ 5, ∃ bar, (sessionWindow store split.1.1 split.1.2)[i + k]? = some bar ∧
      scales.old bar.date = true
  early : ∀ bar ∈ sessionWindow store split.1.1 split.1.2, scales.old bar.date = true →
    ∀ instant, bar.firstStored = some instant → Nyse.dateOf instant < split.1.2

/-- The split is decided as applied, and afterwards the ticker has one scale. -/
def Restored (world : World) (now : Instant) (store : Store) (split : Key × ℚ)
    (truth : Date → Quote) : Prop :=
  ∃ next, decideSplit world now split store = .ok next ∧
    (next.adjustments.lookup split.1).map Adjustment.outcome = some .applied ∧
    ∀ bar ∈ next.prices.entries, bar.1.1 = split.1.1 → bar.2.quote = truth bar.1.2

/-- The restatement of what is on the old scale. -/
def Scales.restatement (scales : Scales) (split : Key × ℚ) : Restatement :=
  restatementOf split scales.breakDate scales.islands

/-- When a break is told from the islands before it: there are bars on both sides of the
ex-date, the window begins on the old scale, every island is entered farther from the ex-date
than the break, and the restatement is one that the validator, the columns and the books
admit. -/
structure Distinct (world : World) (now : Instant) (store : Store) (split : Key × ℚ)
    (scales : Scales) : Prop where
  earlier : ∃ bar ∈ store.prices.entries, bar.1.1 = split.1.1 ∧ bar.1.2 < split.1.2
  reached : sessionIndex (sessionWindow store split.1.1 split.1.2) split.1.2 <
    (sessionWindow store split.1.1 split.1.2).length
  begins : ∀ bar, (sessionWindow store split.1.1 split.1.2)[0]? = some bar →
    scales.old bar.date = true
  farther : ∀ i one two, (sessionWindow store split.1.1 split.1.2)[i]? = some one →
    (sessionWindow store split.1.1 split.1.2)[i + 1]? = some two →
    scales.old one.date = true → two.date ∈ scales.islands →
    |(sessionIndex (sessionWindow store split.1.1 split.1.2) scales.breakDate : Int) -
        sessionIndex (sessionWindow store split.1.1 split.1.2) split.1.2| <
      |((i + 1 : Nat) : Int) - sessionIndex (sessionWindow store split.1.1 split.1.2) split.1.2|
  sound : ∀ bar ∈ store.prices.entries, (scales.restatement split).reaches bar.1 = true →
    (scales.restatement split).faults world bar = [] ∧
      outOfRange ((scales.restatement split).bar bar.2).quote.volume = false
  replays : ∃ portfolios, (scales.restatement split).portfolios world now store = .ok portfolios

section Ratios

variable {move ratio : ℚ}

theorem inBand_mul (positive : 0 < ratio) (low : 25 / 27 ≤ move) (high : move ≤ 27 / 25) :
    inBand (move * ratio) ratio = true := by
  unfold inBand
  rw [Bool.and_eq_true, decide_eq_true_eq, decide_eq_true_eq]
  constructor <;> nlinarith

theorem inBand_move (separate : ratio < 25 / 36 ∨ 36 / 25 < ratio) (low : 25 / 27 ≤ move)
    (high : move ≤ 27 / 25) : inBand move ratio = false := by
  unfold inBand
  rw [Bool.and_eq_false_iff, decide_eq_false_iff_not, decide_eq_false_iff_not]
  rcases separate with small | large
  · left
    linarith
  · right
    linarith

/-- A true move divided by the ratio does not look like the ratio. -/
theorem inBand_div (positive : 0 < ratio) (separate : ratio < 25 / 36 ∨ 36 / 25 < ratio)
    (low : 25 / 27 ≤ move) (high : move ≤ 27 / 25) : inBand (move / ratio) ratio = false := by
  unfold inBand
  rw [Bool.and_eq_false_iff, decide_eq_false_iff_not, decide_eq_false_iff_not]
  rcases separate with small | large
  · left
    rw [not_le, lt_div_iff₀ positive]
    nlinarith
  · right
    rw [not_le, div_mul_eq_mul_div, div_lt_iff₀ positive]
    nlinarith

theorem inBand_one (low : 25 / 27 ≤ move) (high : move ≤ 27 / 25) : inBand move 1 = true := by
  unfold inBand
  rw [Bool.and_eq_true, decide_eq_true_eq, decide_eq_true_eq]
  constructor <;> linarith

theorem inBand_mul_one (separate : ratio < 25 / 36 ∨ 36 / 25 < ratio) (low : 25 / 27 ≤ move)
    (high : move ≤ 27 / 25) : inBand (move * ratio) 1 = false := by
  unfold inBand
  rw [Bool.and_eq_false_iff, decide_eq_false_iff_not, decide_eq_false_iff_not]
  rcases separate with small | large
  · right
    nlinarith
  · left
    nlinarith

end Ratios

section Window

variable {store : Store} {ticker : String} {exDate : Date}

/-- A closing bar is a stored bar with a numeric close. -/
theorem mem_closingBars {bar : WindowBar} (listed : bar ∈ closingBars store ticker) :
    ∃ row, (⟨(ticker, bar.date), row⟩ : Σ _ : Key, Row) ∈ store.prices.entries ∧
      row.quote.close = .number bar.close := by
  unfold closingBars at listed
  rw [List.mem_insertionSort, List.mem_filterMap] at listed
  obtain ⟨⟨⟨owner, day⟩, row⟩, stored, chosen⟩ := listed
  dsimp only at chosen
  split at chosen
  · rename_i own
    subst own
    obtain ⟨close, priced, rfl⟩ := Option.map_eq_some_iff.mp chosen
    refine ⟨row, stored, ?_⟩
    cases shape : row.quote.close with
    | number value =>
      rw [shape] at priced
      exact congrArg Cell.number (Option.some.inj priced)
    | null =>
      rw [shape] at priced
      cases priced
    | nonfinite name =>
      rw [shape] at priced
      cases priced
    | text characters =>
      rw [shape] at priced
      cases priced
  · cases chosen

theorem entries_distinct (prices : Table Key Row) :
    prices.entries.Pairwise fun one two => one.1 ≠ two.1 := by
  have distinct : (prices.entries.map Sigma.fst).Nodup := prices.nodupKeys
  exact List.pairwise_map.mp distinct

/-- Closing bars follow one another in time. -/
theorem closingBars_sorted :
    (closingBars store ticker).Pairwise fun one two => one.date < two.date := by
  have ordered : (closingBars store ticker).Pairwise fun one two => one.date ≤ two.date :=
    List.pairwise_insertionSort _ _
  have distinct : (closingBars store ticker).Pairwise fun one two => one.date ≠ two.date := by
    unfold closingBars
    refine ((List.perm_insertionSort _ _).pairwise_iff fun differ => differ.symm).mpr ?_
    refine List.pairwise_filterMap.mpr ((entries_distinct store.prices).imp ?_)
    intro one two differ first chosen second chosen'
    split at chosen
    · split at chosen'
      · rename_i own own'
        obtain ⟨close, -, rfl⟩ := Option.map_eq_some_iff.mp chosen
        obtain ⟨close', -, rfl⟩ := Option.map_eq_some_iff.mp chosen'
        intro same
        exact differ (Prod.ext (own.trans own'.symm) same)
      · cases chosen'
    · cases chosen
  exact (ordered.and distinct).imp fun both => lt_of_le_of_ne both.1 both.2

theorem sessionWindow_sorted :
    (sessionWindow store ticker exDate).Pairwise fun one two => one.date < two.date := by
  unfold sessionWindow
  apply List.pairwise_append.mpr
  refine ⟨(closingBars_sorted.filter _).drop, (closingBars_sorted.filter _).take, ?_⟩
  intro one early two late
  have before := (List.mem_filter.mp (List.mem_of_mem_drop early)).2
  have after := (List.mem_filter.mp (List.mem_of_mem_take late)).2
  exact lt_of_lt_of_le (of_decide_eq_true before) (of_decide_eq_true after)

theorem mem_sessionWindow {bar : WindowBar} (listed : bar ∈ sessionWindow store ticker exDate) :
    ∃ row, (⟨(ticker, bar.date), row⟩ : Σ _ : Key, Row) ∈ store.prices.entries ∧
      row.quote.close = .number bar.close := by
  unfold sessionWindow at listed
  rcases List.mem_append.mp listed with early | late
  · exact mem_closingBars (List.mem_of_mem_filter (List.mem_of_mem_drop early))
  · exact mem_closingBars (List.mem_of_mem_filter (List.mem_of_mem_take late))

variable {window : List WindowBar} {i j : Nat} {one two : WindowBar}

/-- Positions in a window are ordered as the dates. -/
theorem date_lt_iff (sorted : window.Pairwise fun one two => one.date < two.date)
    (first : window[i]? = some one) (second : window[j]? = some two) :
    one.date < two.date ↔ i < j := by
  obtain ⟨inside, rfl⟩ := List.getElem?_eq_some_iff.mp first
  obtain ⟨inside', rfl⟩ := List.getElem?_eq_some_iff.mp second
  have increasing := List.pairwise_iff_getElem.mp sorted
  constructor
  · intro before
    rcases lt_trichotomy i j with less | same | more
    · exact less
    · subst same
      exact absurd before (lt_irrefl _)
    · exact absurd (increasing j i inside' inside more) (lt_asymm before)
  · exact increasing i j inside inside'

theorem sessionIndex_date (sorted : window.Pairwise fun one two => one.date < two.date)
    (first : window[i]? = some one) : sessionIndex window one.date = i := by
  obtain ⟨inside, rfl⟩ := List.getElem?_eq_some_iff.mp first
  unfold sessionIndex
  apply (List.findIdx_eq inside).mpr
  constructor
  · exact decide_eq_true le_rfl
  · intro k before
    have earlier := (List.pairwise_iff_getElem.mp sorted) k i (before.trans inside) inside before
    exact decide_eq_false (not_le.mpr earlier)

end Window

section Signals

variable {store : Store} {split : Key × ℚ} {scales : Scales}

/-- The close of a bar in the window: the true one, or the true one times the ratio. -/
theorem Mixed.close_eq (mixed : Mixed store split scales) {bar : WindowBar}
    (listed : bar ∈ sessionWindow store split.1.1 split.1.2) :
    ∃ value, 0 < value ∧ (scales.truth bar.date).close = .number value ∧
      bar.close = if scales.old bar.date then value * split.2 else value := by
  obtain ⟨row, stored, priced⟩ := mem_sessionWindow listed
  have scale := mixed.stored _ stored rfl
  have positive := mixed.priced bar listed
  dsimp only at scale
  split at scale
  · rename_i old
    have close := scale.close
    rw [priced] at close
    cases shape : (scales.truth bar.date).close with
    | number value =>
      rw [shape] at close
      have same : bar.close = value * split.2 := Cell.number.inj close
      refine ⟨value, ?_, rfl, ?_⟩
      · rw [same] at positive
        exact pos_of_mul_pos_left positive mixed.positive.le
      · rw [if_pos old, same]
    | null =>
      rw [shape] at close
      cases close
    | nonfinite name =>
      rw [shape] at close
      cases close
    | text characters =>
      rw [shape] at close
      cases close
  · rename_i new
    refine ⟨bar.close, positive, ?_, ?_⟩
    · rw [← scale, priced]
    · rw [if_neg new]

variable {i : Nat} {one two : WindowBar}

/-- One session's ratio is a true move, times the ratio where the old scale ends and divided
by it where the old scale begins. -/
theorem Mixed.observed (mixed : Mixed store split scales)
    (first : (sessionWindow store split.1.1 split.1.2)[i]? = some one)
    (second : (sessionWindow store split.1.1 split.1.2)[i + 1]? = some two) :
    ∃ move, 25 / 27 ≤ move ∧ move ≤ 27 / 25 ∧
      one.close / two.close =
        if scales.old one.date then if scales.old two.date then move else move * split.2
        else if scales.old two.date then move / split.2 else move := by
  obtain ⟨before, beforePositive, beforeTrue, beforeClose⟩ :=
    mixed.close_eq (List.mem_of_getElem? first)
  obtain ⟨after, afterPositive, afterTrue, afterClose⟩ :=
    mixed.close_eq (List.mem_of_getElem? second)
  obtain ⟨low, high⟩ := mixed.calm i one two before after first second beforeTrue afterTrue
  have nonzero : split.2 ≠ 0 := mixed.positive.ne'
  have afterNonzero : after ≠ 0 := afterPositive.ne'
  refine ⟨before / after, low, high, ?_⟩
  rw [beforeClose, afterClose]
  split
  · split
    · rw [mul_div_mul_right _ _ nonzero]
    · rw [div_mul_eq_mul_div]
  · split
    · rw [div_div]
    · rfl

/-- Just where the old scale ends, a session's ratio matches the split. -/
theorem Mixed.entry_iff (mixed : Mixed store split scales)
    (first : (sessionWindow store split.1.1 split.1.2)[i]? = some one)
    (second : (sessionWindow store split.1.1 split.1.2)[i + 1]? = some two) :
    inBand (one.close / two.close) split.2 = true ↔
      scales.old one.date = true ∧ scales.old two.date = false := by
  obtain ⟨move, low, high, observed⟩ := mixed.observed first second
  rw [observed]
  cases before : scales.old one.date with
  | true =>
    cases after : scales.old two.date with
    | true => simp [inBand_move mixed.separate low high]
    | false => simp [inBand_mul mixed.positive low high]
  | false =>
    cases after : scales.old two.date with
    | true => simp [inBand_div mixed.positive mixed.separate low high]
    | false => simp [inBand_move mixed.separate low high]

/-- A session's ratio that does not match the split matches its inverse just where the old
scale begins. -/
theorem Mixed.exit_iff (mixed : Mixed store split scales)
    (first : (sessionWindow store split.1.1 split.1.2)[i]? = some one)
    (second : (sessionWindow store split.1.1 split.1.2)[i + 1]? = some two)
    (stays : ¬inBand (one.close / two.close) split.2 = true) :
    inBand (one.close / two.close * split.2) 1 = true ↔
      scales.old one.date = false ∧ scales.old two.date = true := by
  rw [mixed.entry_iff first second] at stays
  obtain ⟨move, low, high, observed⟩ := mixed.observed first second
  rw [observed]
  cases before : scales.old one.date with
  | true =>
    cases after : scales.old two.date with
    | true => simp [inBand_mul_one mixed.separate low high]
    | false => exact absurd ⟨before, after⟩ stays
  | false =>
    cases after : scales.old two.date with
    | true =>
      simp [div_mul_cancel₀ move mixed.positive.ne', inBand_one low high]
    | false => simp [inBand_mul_one mixed.separate low high]

/-- In a window the changes of scale can be read off the ratios of one session. -/
structure Legible (window : List WindowBar) (ratio : ℚ) (old : Date → Bool) : Prop where
  priced : ∀ bar ∈ window, 0 < bar.close
  entry : ∀ (i : Nat) (one two : WindowBar), window[i]? = some one → window[i + 1]? = some two →
    (inBand (one.close / two.close) ratio = true ↔ old one.date = true ∧ old two.date = false)
  leave : ∀ (i : Nat) (one two : WindowBar), window[i]? = some one → window[i + 1]? = some two →
    ¬inBand (one.close / two.close) ratio = true →
    (inBand (one.close / two.close * ratio) 1 = true ↔ old one.date = false ∧ old two.date = true)

theorem Mixed.legible (mixed : Mixed store split scales) :
    Legible (sessionWindow store split.1.1 split.1.2) split.2 scales.old where
  priced := mixed.priced
  entry _ _ _ := mixed.entry_iff
  leave _ _ _ := mixed.exit_iff

end Signals

/-- What one position of a scan carries on to the next holds after all of them. -/
theorem foldl_range'_invariant {σ : Type*} {step : σ → Nat → σ} (invariant : Nat → σ → Prop)
    {state : σ} (first count : Nat) (initial : invariant first state)
    (carried : ∀ i state, first ≤ i → i < first + count → invariant i state →
      invariant (i + 1) (step state i)) :
    invariant (first + count) ((List.range' first count).foldl step state) := by
  induction count with
  | zero => exact initial
  | succ count ih =>
    rw [List.range'_1_concat, List.foldl_append]
    apply carried (first + count)
    · omega
    · omega
    · apply ih
      intro i state after before
      exact carried i state after (by omega)

section IslandScan

variable {closes : List (Date × ℚ)} {ratio : ℚ}

/-- What was entered and left so far comes after the first close. -/
structure Islands.Later (closes : List (Date × ℚ)) (islands : Islands) : Prop where
  start : ∀ start, islands.start = some start → 1 ≤ start
  dates : ∀ day ∈ islands.dates, day ∈ closes.tail.map Prod.fst

/-- An element of a slice stands at one of its positions. -/
theorem mem_slice {α : Type*} {elements : List α} {element : α} {first last : Nat} :
    element ∈ (elements.take last).drop first ↔
      ∃ j, first ≤ j ∧ j < last ∧ elements[j]? = some element := by
  rw [List.mem_iff_getElem?]
  constructor
  · rintro ⟨k, found⟩
    rw [List.getElem?_drop, List.getElem?_take] at found
    split at found
    · exact ⟨first + k, by omega, by omega, found⟩
    · cases found
  · rintro ⟨j, after, before, found⟩
    refine ⟨j - first, ?_⟩
    rw [List.getElem?_drop, List.getElem?_take, Nat.add_sub_of_le after, if_pos before, found]

theorem islandStep_later (ratio : ℚ) {islands : Islands} {i : Nat} (later : islands.Later closes)
    (positive : 1 ≤ i) : (islandStep closes ratio islands i).Later closes := by
  have outside (dates : List Date) (known : ∀ day ∈ dates, day ∈ closes.tail.map Prod.fst) :
      Islands.Later closes ⟨none, dates⟩ := by
    constructor
    · intro start entered
      cases entered
    · exact known
  unfold islandStep
  split
  · split
    · exact outside _ later.dates
    · split
      · constructor
        · intro start entered
          cases entered
          exact positive
        · exact later.dates
      · split
        · exact later
        · rename_i start entered
          split
          · apply outside
            split
            · intro day listed
              rcases List.mem_append.mp listed with known | left
              · exact later.dates day known
              · obtain ⟨bar, inside, rfl⟩ := List.mem_map.mp left
                apply List.mem_map_of_mem
                obtain ⟨j, after, -, found⟩ := mem_slice.mp inside
                have positive := later.start start entered
                rw [← Nat.sub_add_cancel (positive.trans after), ← List.getElem?_tail] at found
                exact List.mem_of_getElem? found
            · exact later.dates
          · exact later
  · exact later

/-- No island begins with the first close. -/
theorem newScaleIslands_later {day : Date} (listed : day ∈ newScaleIslands closes ratio) :
    day ∈ closes.tail.map Prod.fst := by
  have initial : Islands.Later closes ⟨none, []⟩ := by
    constructor
    · intro start entered
      cases entered
    · intro day listed
      cases listed
  have scanned := foldl_range'_invariant (fun _ (islands : Islands) => islands.Later closes) 1
    (closes.length - 1) initial fun i islands positive _ later =>
      islandStep_later ratio later positive
  exact scanned.dates day listed

end IslandScan

section ExactIslands

variable {window : List WindowBar} {ratio : ℚ} {old : Date → Bool} {last : Nat}

/-- The closes before a position of the window. -/
def closesBefore (window : List WindowBar) (last : Nat) : List (Date × ℚ) :=
  (window.take last).map fun bar => (bar.date, bar.close)

theorem closesBefore_getElem? {i : Nat} {bar : WindowBar} (found : window[i]? = some bar)
    (before : i < last) : (closesBefore window last)[i]? = some (bar.date, bar.close) := by
  rw [closesBefore, List.getElem?_map, List.getElem?_take, if_pos before, found, Option.map_some]

/-- The new-scale days before a position. -/
def NewBefore (window : List WindowBar) (old : Date → Bool) (k : Nat) (day : Date) : Prop :=
  ∃ j bar, j < k ∧ window[j]? = some bar ∧ bar.date = day ∧ old bar.date = false

/-- The bars before a position have been scanned: an island is entered exactly when the last
of them is on the new scale, and the dates are those of the islands that were left. -/
structure Islands.Exact (window : List WindowBar) (old : Date → Bool) (k : Nat)
    (islands : Islands) : Prop where
  idle : islands.start = none → ∀ bar, window[k - 1]? = some bar → old bar.date = true
  entered : ∀ start, islands.start = some start → start < k ∧
    ∀ j bar, start ≤ j → j < k → window[j]? = some bar → old bar.date = false
  dates : ∀ day, day ∈ islands.dates ↔ NewBefore window old (islands.start.getD k) day

/-- A bar on the old scale adds no new-scale day. -/
theorem newBefore_succ_of_old {k : Nat} {bar : WindowBar} (found : window[k]? = some bar)
    (isOld : old bar.date = true) (day : Date) :
    NewBefore window old (k + 1) day ↔ NewBefore window old k day := by
  constructor
  · rintro ⟨j, other, before, found', same, new⟩
    refine ⟨j, other, ?_, found', same, new⟩
    rcases Nat.lt_succ_iff_lt_or_eq.mp before with less | rfl
    · exact less
    · rw [found] at found'
      cases found'
      rw [isOld] at new
      cases new
  · rintro ⟨j, other, before, rest⟩
    exact ⟨j, other, by omega, rest⟩

/-- The dates of an island that was left. -/
theorem mem_left {start k : Nat} (inside : k < last) (long : last ≤ window.length)
    (new : ∀ j bar, start ≤ j → j < k → window[j]? = some bar → old bar.date = false)
    {dates : List Date} (known : ∀ day, day ∈ dates ↔ NewBefore window old start day)
    (after : start < k) (day : Date) :
    day ∈ dates ++ (((closesBefore window last).take k).drop start).map Prod.fst ↔
      NewBefore window old k day := by
  rw [List.mem_append, known, List.mem_map]
  constructor
  · rintro (⟨j, bar, before, rest⟩ | ⟨entry, listed, rfl⟩)
    · exact ⟨j, bar, before.trans after, rest⟩
    · obtain ⟨j, since, before, found⟩ := mem_slice.mp listed
      obtain ⟨bar, shape⟩ : ∃ bar, window[j]? = some bar :=
        ⟨_, List.getElem?_eq_getElem (by omega)⟩
      rw [closesBefore_getElem? shape (before.trans inside)] at found
      cases found
      exact ⟨j, bar, before, shape, rfl, new j bar since before shape⟩
  · rintro ⟨j, bar, before, found, rfl, isNew⟩
    by_cases earlier : j < start
    · left
      exact ⟨j, bar, earlier, found, rfl, isNew⟩
    · right
      refine ⟨(bar.date, bar.close), mem_slice.mpr ⟨j, by omega, before, ?_⟩, rfl⟩
      exact closesBefore_getElem? found (before.trans inside)

/-- One session of the scan for islands. -/
theorem islandStep_exact (legible : Legible window ratio old) (long : last ≤ window.length)
    (short : ∀ i, i + 5 < last → ∃ k ≤ 5, ∃ bar, window[i + k]? = some bar ∧ old bar.date = true)
    {islands : Islands} {i : Nat} (inside : i + 1 < last)
    (walked : islands.Exact window old (i + 1)) :
    (islandStep (closesBefore window last) ratio islands (i + 1)).Exact window old (i + 1 + 1) := by
  obtain ⟨one, first⟩ : ∃ one, window[i]? = some one := ⟨_, List.getElem?_eq_getElem (by omega)⟩
  obtain ⟨two, second⟩ : ∃ two, window[i + 1]? = some two :=
    ⟨_, List.getElem?_eq_getElem (by omega)⟩
  have onePositive := legible.priced one (List.mem_of_getElem? first)
  have twoPositive := legible.priced two (List.mem_of_getElem? second)
  have entry := legible.entry i one two first second
  have leave := legible.leave i one two first second
  obtain ⟨start, dates⟩ := islands
  obtain ⟨idle, entered, known⟩ := walked
  unfold islandStep
  rw [Nat.add_sub_cancel, closesBefore_getElem? first (by omega),
    closesBefore_getElem? second inside]
  dsimp only at idle entered known ⊢
  rw [if_neg (by rw [not_or]; exact ⟨not_le.mpr onePositive, not_le.mpr twoPositive⟩)]
  cases start with
  | none =>
    have oneOld : old one.date = true := idle rfl one first
    cases scale : old two.date with
    | false =>
      rw [if_pos (entry.mpr ⟨oneOld, scale⟩)]
      refine ⟨fun missing => ?_, fun start same => ?_, known⟩
      · cases missing
      · cases same
        refine ⟨Nat.lt_succ_self _, fun j bar after before found => ?_⟩
        obtain rfl : j = i + 1 := by omega
        rw [second] at found
        cases found
        exact scale
    | true =>
      rw [if_neg fun matched => by rw [(entry.mp matched).2] at scale; cases scale]
      refine ⟨fun _ bar found => ?_, fun start same => ?_, fun day => ?_⟩
      · rw [Nat.add_sub_cancel, second] at found
        cases found
        exact scale
      · cases same
      · exact (known day).trans (newBefore_succ_of_old second scale day).symm
  | some start =>
    obtain ⟨after, new⟩ := entered start rfl
    have oneNew : old one.date = false := new i one (by omega) (by omega) first
    have stays : ¬inBand (one.close / two.close) ratio = true := by
      intro matched
      rw [(entry.mp matched).1] at oneNew
      cases oneNew
    rw [if_neg stays]
    dsimp only
    cases scale : old two.date with
    | true =>
      -- An island that is left had at most five bars.
      have brief : i + 1 - start ≤ 5 := by
        by_contra long
        obtain ⟨k, few, bar, found, isOld⟩ := short start (by omega)
        rw [new (start + k) bar (by omega) (by omega) found] at isOld
        cases isOld
      rw [if_pos ((leave stays).mpr ⟨oneNew, scale⟩), if_pos brief]
      refine ⟨fun _ bar found => ?_, fun start same => ?_, fun day => ?_⟩
      · rw [Nat.add_sub_cancel, second] at found
        cases found
        exact scale
      · cases same
      · exact (mem_left inside long new known after day).trans
          (newBefore_succ_of_old second scale day).symm
    | false =>
      rw [if_neg fun matched => by rw [((leave stays).mp matched).2] at scale; cases scale]
      refine ⟨fun missing => ?_, fun other same => ?_, known⟩
      · cases missing
      · cases same
        refine ⟨by omega, fun j bar since before found => ?_⟩
        rcases Nat.lt_succ_iff_lt_or_eq.mp before with less | rfl
        · exact new j bar since less found
        · rw [second] at found
          cases found
          exact scale

/-- Where the window begins on the old scale and the last bar before a position is on it, the
islands before that position are found. -/
theorem mem_newScaleIslands (legible : Legible window ratio old) (long : last ≤ window.length)
    (short : ∀ i, i + 5 < last → ∃ k ≤ 5, ∃ bar, window[i + k]? = some bar ∧ old bar.date = true)
    (begins : ∀ bar, window[0]? = some bar → old bar.date = true) (positive : 1 ≤ last)
    (ends : ∀ bar, window[last - 1]? = some bar → old bar.date = true) (day : Date) :
    day ∈ newScaleIslands (closesBefore window last) ratio ↔ NewBefore window old last day := by
  have initial : Islands.Exact window old 1 ⟨none, []⟩ := by
    refine ⟨fun _ => begins, fun start same => ?_, fun day => ?_⟩
    · cases same
    · constructor
      · intro listed
        cases listed
      · rintro ⟨j, bar, before, found, -, new⟩
        obtain rfl : j = 0 := Nat.lt_one_iff.mp before
        rw [begins bar found] at new
        cases new
  have length : (closesBefore window last).length = last := by
    rw [closesBefore, List.length_map, List.length_take, min_eq_left long]
  have scanned := foldl_range'_invariant
    (fun k (islands : Islands) => islands.Exact window old k) 1
    ((closesBefore window last).length - 1) initial fun i islands after before known => by
      obtain ⟨j, rfl⟩ := Nat.exists_eq_add_of_le' after
      exact islandStep_exact legible long short (by omega) known
  rw [length, Nat.add_sub_cancel' positive] at scanned
  unfold newScaleIslands
  rw [length]
  cases entered : ((List.range' 1 (last - 1)).foldl (islandStep (closesBefore window last) ratio)
      ⟨none, []⟩).start with
  | none =>
    have dates := scanned.dates day
    rwa [entered] at dates
  | some start =>
    obtain ⟨bar, found⟩ : ∃ bar, window[last - 1]? = some bar :=
      ⟨_, List.getElem?_eq_getElem (by omega)⟩
    obtain ⟨after, new⟩ := scanned.entered start entered
    have isNew := new (last - 1) bar (by omega) (by omega) found
    rw [ends bar found] at isNew
    cases isNew

end ExactIslands

section Nearest

variable {window : List WindowBar} {ratio : ℚ} {exIndex : Nat} {recent : Bool}

/-- The session's ratio matches the split, and a break may be there. -/
def Candidate (window : List WindowBar) (ratio : ℚ) (exIndex : Nat) (recent : Bool) (i : Nat) :
    Prop :=
  (∃ one two, window[i - 1]? = some one ∧ window[i]? = some two ∧
    inBand (one.close / two.close) ratio = true) ∧
  (|(i : Int) - exIndex| ≤ 5 ∨ recent = true ∧ 0 < (i : Int) - exIndex)

/-- The first of the nearest candidates before a position. -/
structure Nearest (window : List WindowBar) (ratio : ℚ) (exIndex : Nat) (recent : Bool) (k : Nat)
    (near : Option Break) : Prop where
  missing : near = none → ∀ i, 1 ≤ i → i < k → ¬Candidate window ratio exIndex recent i
  placed : ∀ found, near = some found → 1 ≤ found.index ∧ found.index < k ∧
    Candidate window ratio exIndex recent found.index ∧
    found.distance = |(found.index : Int) - exIndex| ∧
    window[found.index]?.map WindowBar.date = some found.date
  least : ∀ found, near = some found → ∀ i, 1 ≤ i → i < k →
    Candidate window ratio exIndex recent i →
    found.distance < |(i : Int) - exIndex| ∨
      found.distance = |(i : Int) - exIndex| ∧ found.index ≤ i

variable {k : Nat} {near : Option Break}

/-- A session that is no candidate changes nothing. -/
theorem Nearest.skip (nearest : Nearest window ratio exIndex recent k near)
    (unfit : ¬Candidate window ratio exIndex recent k) :
    Nearest window ratio exIndex recent (k + 1) near := by
  have earlier {i : Nat} (before : i < k + 1) (fit : Candidate window ratio exIndex recent i) :
      i < k := by
    rcases Nat.lt_succ_iff_lt_or_eq.mp before with less | rfl
    · exact less
    · exact absurd fit unfit
  constructor
  · intro missing i positive before fit
    exact nearest.missing missing i positive (earlier before fit) fit
  · intro found same
    obtain ⟨positive, before, rest⟩ := nearest.placed found same
    exact ⟨positive, by omega, rest⟩
  · intro found same i positive before fit
    exact nearest.least found same i positive (earlier before fit) fit

/-- A candidate counts when it is nearer than those before it. -/
theorem Nearest.add (nearest : Nearest window ratio exIndex recent k near) (positive : 1 ≤ k)
    (fit : Candidate window ratio exIndex recent k) {candidate : Break}
    (index : candidate.index = k) (distance : candidate.distance = |(k : Int) - exIndex|)
    (date : window[k]?.map WindowBar.date = some candidate.date) :
    Nearest window ratio exIndex recent (k + 1) (closer near candidate) := by
  have own : 1 ≤ candidate.index ∧ candidate.index < k + 1 ∧
      Candidate window ratio exIndex recent candidate.index ∧
      candidate.distance = |(candidate.index : Int) - exIndex| ∧
      window[candidate.index]?.map WindowBar.date = some candidate.date := by
    rw [index]
    exact ⟨positive, Nat.lt_succ_self k, fit, distance, date⟩
  cases near with
  | none =>
    constructor
    · intro missing
      cases missing
    · intro found same
      cases same
      exact own
    · intro found same i after before other
      cases same
      rcases Nat.lt_succ_iff_lt_or_eq.mp before with less | rfl
      · exact absurd other (nearest.missing rfl i after less)
      · exact .inr ⟨distance, index.le⟩
  | some first =>
    have least := nearest.least first rfl
    obtain ⟨after, before, rest⟩ := nearest.placed first rfl
    unfold closer
    dsimp only
    split
    · rename_i nearer
      constructor
      · intro missing
        cases missing
      · intro found same
        cases same
        exact own
      · intro found same i since until' other
        cases same
        rcases Nat.lt_succ_iff_lt_or_eq.mp until' with less | rfl
        · left
          rcases least i since less other with farther | ⟨equal, -⟩
          · exact nearer.trans farther
          · rw [← equal]
            exact nearer
        · exact .inr ⟨distance, index.le⟩
    · rename_i notNearer
      constructor
      · intro missing
        cases missing
      · intro found same
        cases same
        exact ⟨after, by omega, rest⟩
      · intro found same i since until' other
        cases same
        rcases Nat.lt_succ_iff_lt_or_eq.mp until' with less | rfl
        · exact least i since less other
        · rw [← distance]
          rcases lt_or_eq_of_le (not_lt.mp notNearer) with farther | equal
          · exact .inl farther
          · exact .inr ⟨equal, before.le⟩

/-- One session of the scan for breaks. -/
theorem scanStep_nearest (priced : ∀ bar ∈ window, 0 < bar.close) {scan : Scan}
    (positive : 1 ≤ k) (inside : k < window.length)
    (nearest : Nearest window ratio exIndex recent k scan.near) :
    Nearest window ratio exIndex recent (k + 1)
      (scanStep window ratio exIndex recent scan k).near := by
  obtain ⟨one, first⟩ : ∃ one, window[k - 1]? = some one :=
    ⟨_, List.getElem?_eq_getElem (by omega)⟩
  obtain ⟨two, second⟩ : ∃ two, window[k]? = some two := ⟨_, List.getElem?_eq_getElem inside⟩
  have onePositive := priced one (List.mem_of_getElem? first)
  have twoPositive := priced two (List.mem_of_getElem? second)
  have moved : (if |(k : Int) - exIndex| ≤ 4 then
      { scan with
        worst := max scan.worst (max (one.close / two.close) (1 / (one.close / two.close))) }
      else scan).near = scan.near := by
    split <;> rfl
  unfold scanStep
  rw [first, second]
  dsimp only
  rw [if_neg (by rw [not_or]; exact ⟨not_le.mpr onePositive, not_le.mpr twoPositive⟩)]
  cases matched : inBand (one.close / two.close) ratio with
  | false =>
    rw [Bool.not_false, if_pos rfl, moved]
    apply nearest.skip
    rintro ⟨⟨one', two', first', second', other⟩, -⟩
    rw [first] at first'
    rw [second] at second'
    cases first'
    cases second'
    rw [matched] at other
    cases other
  | true =>
    rw [Bool.not_true, if_neg Bool.false_ne_true]
    split
    · rename_i allowed
      dsimp only
      rw [moved]
      apply nearest.add positive ⟨⟨one, two, first, second, matched⟩, allowed⟩ rfl rfl
      rw [second]
      rfl
    · rename_i refused
      rw [show ∀ scan : Scan, ∀ far, ({ scan with far := far } : Scan).near = scan.near from
        fun _ _ => rfl, moved]
      exact nearest.skip fun fit => refused fit.2

/-- The scan of the whole window finds the first of the nearest candidates. -/
theorem scan_nearest (ratio : ℚ) (exIndex : Nat) (recent : Bool)
    (priced : ∀ bar ∈ window, 0 < bar.close) (long : 2 ≤ window.length) :
    Nearest window ratio exIndex recent window.length
      ((List.range' 1 (window.length - 1)).foldl (scanStep window ratio exIndex recent)
        ⟨none, none, 1⟩).near := by
  have initial : Nearest window ratio exIndex recent 1 (Scan.near ⟨none, none, 1⟩) := by
    constructor
    · intro missing i positive before
      omega
    · intro found same
      cases same
    · intro found same
      cases same
  have scanned := foldl_range'_invariant
    (fun k (scan : Scan) => Nearest window ratio exIndex recent k scan.near) 1
    (window.length - 1) initial fun i scan positive before nearest =>
      scanStep_nearest priced positive (by omega) nearest
  rwa [Nat.add_sub_cancel' (by omega)] at scanned

end Nearest

end TradingEngine.PriceStore
