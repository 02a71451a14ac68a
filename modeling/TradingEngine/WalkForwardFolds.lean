import TradingEngine.Nyse
import TradingEngine.Runs

/-!
# Walk-forward folds

Folds are laid out backwards from an anchor. A fold ends a number of strides before the
anchor, and its validate window opens one stride before that end. Both dates are found by
subtracting months, which keeps the day of the month unless the month is too short, so two
subtractions of a stride may end before one of both strides.
-/

namespace TradingEngine.WalkForward

/-- The days of a month, counted from one. -/
def monthrange (year month : ℤ) : ℕ :=
  if month = 2 then (if Nyse.isLeap year then 29 else 28)
  else if month = 4 ∨ month = 6 ∨ month = 9 ∨ month = 11 then 30 else 31

/-- A date of the proleptic Gregorian calendar from year one. -/
@[ext] structure CivilDate where
  year : ℤ
  month : ℤ
  day : ℕ
  year_pos : 1 ≤ year
  month_pos : 1 ≤ month
  month_le : month ≤ 12
  day_pos : 1 ≤ day
  day_le : day ≤ monthrange year month

instance : DecidableEq CivilDate := fun one other =>
  decidable_of_iff (one.year = other.year ∧ one.month = other.month ∧ one.day = other.day)
    CivilDate.ext_iff.symm

theorem year_2026 : (1 : ℤ) ≤ 2026 := by decide

/-- A date of its parts, if they are in range. -/
def date (year month : ℤ) (day : ℕ) : Except String CivilDate :=
  if valid : 1 ≤ year ∧ 1 ≤ month ∧ month ≤ 12 ∧ 1 ≤ day ∧ day ≤ monthrange year month then
    .ok ⟨year, month, day, valid.1, valid.2.1, valid.2.2.1, valid.2.2.2.1, valid.2.2.2.2⟩
  else .error "date is out of range"

/-- Carry months into years until the month is positive. -/
def carryMonths (year month : ℤ) : ℤ × ℤ :=
  if month ≤ 0 then carryMonths (year - 1) (month + 12) else (year, month)
termination_by (1 - month).toNat

def minusMonths (d : CivilDate) (months : ℕ) : Except String CivilDate :=
  let (y, m) := carryMonths d.year (d.month - months)
  date y m (min d.day (monthrange y m))

structure Fold where
  index : ℕ
  trainStart : CivilDate
  splitDate : CivilDate
  validateEnd : CivilDate

section Folds

variable (anchor : CivilDate) (trainMonths validateMonths stepMonths nFolds : ℕ)

/-- The fold that ends `k` strides before the anchor. -/
def makeFold (k : ℕ) : Except String Fold := do
  let validateEnd ← minusMonths anchor (k * stepMonths)
  let splitDate ← minusMonths validateEnd validateMonths
  let trainStart ← minusMonths splitDate trainMonths
  .ok ⟨nFolds - k, trainStart, splitDate, validateEnd⟩

/-- The folds, oldest first. -/
def makeFolds : Except String (List Fold) :=
  if nFolds < 1 then .error "n_folds must be >= 1"
  else do
    let folds ← (List.range nFolds).mapM
      (makeFold anchor trainMonths validateMonths stepMonths nFolds)
    .ok folds.reverse

end Folds

/-- The months of the calendar in one count. -/
def CivilDate.monthIndex (d : CivilDate) : ℤ := 12 * d.year + (d.month - 1)

/-- The length of a month of the count. -/
def monthLength (index : ℤ) : ℕ := monthrange (index / 12) (index % 12 + 1)

theorem carryMonths_eq (year month : ℤ) (low : month ≤ 12) :
    carryMonths year month =
      ((12 * year + (month - 1)) / 12, (12 * year + (month - 1)) % 12 + 1) := by
  induction year, month using carryMonths.induct with
  | case1 year month negative ih =>
    have carried := ih (by omega)
    rw [carryMonths, if_pos negative, carried]
    congr 1 <;> omega
  | case2 year month positive =>
    rw [carryMonths, if_neg positive]
    congr 1 <;> omega

theorem date_ok_iff {year month : ℤ} {day : ℕ} {d : CivilDate} :
    date year month day = .ok d ↔ d.year = year ∧ d.month = month ∧ d.day = day := by
  unfold date
  split
  case isTrue valid =>
    rw [Except.ok.injEq, CivilDate.ext_iff]
    constructor
    · rintro ⟨rfl, rfl, rfl⟩
      exact ⟨rfl, rfl, rfl⟩
    · rintro ⟨rfl, rfl, rfl⟩
      exact ⟨rfl, rfl, rfl⟩
  case isFalse invalid =>
    constructor
    · intro impossible
      cases impossible
    · rintro ⟨rfl, rfl, rfl⟩
      exact absurd ⟨d.year_pos, d.month_pos, d.month_le, d.day_pos, d.day_le⟩ invalid

theorem monthIndex_parts (d : CivilDate) :
    d.monthIndex / 12 = d.year ∧ d.monthIndex % 12 + 1 = d.month := by
  have low := d.month_pos
  have high := d.month_le
  unfold CivilDate.monthIndex
  omega

theorem eq_iff_monthIndex {d e : CivilDate} :
    d = e ↔ d.monthIndex = e.monthIndex ∧ d.day = e.day := by
  constructor
  · rintro rfl
    exact ⟨rfl, rfl⟩
  · rintro ⟨index, day⟩
    obtain ⟨year, month⟩ := monthIndex_parts d
    obtain ⟨year', month'⟩ := monthIndex_parts e
    apply CivilDate.ext
    · rw [← year, ← year', index]
    · rw [← month, ← month', index]
    · exact day

theorem minusMonths_spec {d e : CivilDate} {months : ℕ} (subtracted : minusMonths d months = .ok e) :
    e.monthIndex = d.monthIndex - months ∧
      e.day = min d.day (monthLength (d.monthIndex - months)) := by
  have high := d.month_le
  unfold minusMonths at subtracted
  rw [carryMonths_eq _ _ (by omega)] at subtracted
  obtain ⟨year, month, day⟩ := date_ok_iff.mp subtracted
  have index : 12 * d.year + (d.month - months - 1) = d.monthIndex - months := by
    unfold CivilDate.monthIndex
    ring
  rw [index] at year month day
  constructor
  · rw [CivilDate.monthIndex, year, month]
    omega
  · exact day

/-- The order of dates. -/
def CivilDate.key (d : CivilDate) : ℤ ×ₗ ℕ := toLex (d.monthIndex, d.day)

/-- The validate window is open at its split and closed at its end. -/
def Fold.Validates (fold : Fold) (d : CivilDate) : Prop :=
  fold.splitDate.key < d.key ∧ d.key ≤ fold.validateEnd.key

instance (fold : Fold) (d : CivilDate) : Decidable (fold.Validates d) :=
  inferInstanceAs (Decidable (_ ∧ _))

/-- Neighbouring windows abut. -/
def Abuts (older newer : Fold) : Prop := newer.splitDate = older.validateEnd

instance (older newer : Fold) : Decidable (Abuts older newer) :=
  inferInstanceAs (Decidable (_ = _))

def ValidateApart (older newer : Fold) : Prop := ∀ d, ¬(older.Validates d ∧ newer.Validates d)

theorem minusMonths_le {d e : CivilDate} {months : ℕ} (subtracted : minusMonths d months = .ok e) :
    e.key ≤ d.key := by
  obtain ⟨index, day⟩ := minusMonths_spec subtracted
  apply Prod.Lex.le_iff.mpr
  rcases Nat.eq_zero_or_pos months with rfl | positive
  · right
    constructor
    · rw [Nat.cast_zero, sub_zero] at index
      exact index
    · exact day.trans_le (min_le_left _ _)
  · left
    change e.monthIndex < d.monthIndex
    omega

/-- Windows that abut one after the other are pairwise apart. -/
theorem pairwise_apart {folds : List Fold} (ordered : ∀ fold ∈ folds,
      fold.splitDate.key ≤ fold.validateEnd.key) (chain : folds.IsChain Abuts) :
    folds.Pairwise ValidateApart := by
  have later : folds.Pairwise fun older newer => older.validateEnd.key ≤ newer.splitDate.key := by
    induction folds with
    | nil => exact .nil
    | cons first rest ih =>
      have pairs := ih
        (fun fold listed => ordered fold (List.mem_cons_of_mem _ listed)) chain.tail
      apply List.pairwise_cons.mpr
      refine ⟨?_, pairs⟩
      intro fold listed
      cases rest with
      | nil => cases listed
      | cons second rest =>
        have abuts : Abuts first second := (List.isChain_cons_cons.mp chain).1
        have start : first.validateEnd.key = second.splitDate.key := congrArg _ abuts.symm
        rw [start]
        rcases List.mem_cons.mp listed with rfl | beyond
        · exact le_rfl
        · have ends := ordered second (List.mem_cons_of_mem _ List.mem_cons_self)
          exact ends.trans ((List.pairwise_cons.mp pairs).1 fold beyond)
  apply later.imp
  rintro older newer before d ⟨⟨-, early⟩, ⟨late, -⟩⟩
  exact absurd (early.trans before) (not_le_of_gt late)

theorem mapM_forall {α β ε : Type} {compute : α → Except ε β} {elements : List α}
    {values : List β} (computed : elements.mapM compute = .ok values) :
    List.Forall₂ (fun element value => compute element = .ok value) elements values := by
  induction elements generalizing values with
  | nil =>
    cases computed
    exact .nil
  | cons first rest ih =>
    rw [List.mapM_cons] at computed
    obtain ⟨value, one, computed⟩ := Runs.bind_ok.mp computed
    obtain ⟨later, others, computed⟩ := Runs.bind_ok.mp computed
    cases computed
    exact .cons one (ih others)

section Tiling

variable {anchor : CivilDate} {trainMonths months nFolds : ℕ} {folds : List Fold}

/-- The length of the month in which the fold `k` strides back ends. -/
def strideLength (anchor : CivilDate) (months k : ℕ) : ℕ :=
  monthLength (anchor.monthIndex - (k * months : ℕ))

theorem makeFold_spec {k : ℕ} {fold : Fold}
    (made : makeFold anchor trainMonths months months nFolds k = .ok fold) :
    (fold.validateEnd.monthIndex = anchor.monthIndex - (k * months : ℕ) ∧
        fold.validateEnd.day = min anchor.day (strideLength anchor months k)) ∧
      (fold.splitDate.monthIndex = anchor.monthIndex - ((k + 1) * months : ℕ) ∧
        fold.splitDate.day =
          min (min anchor.day (strideLength anchor months k))
            (strideLength anchor months (k + 1))) ∧
      fold.splitDate.key ≤ fold.validateEnd.key := by
  obtain ⟨validateEnd, ends, made⟩ := Runs.bind_ok.mp made
  obtain ⟨splitDate, splits, made⟩ := Runs.bind_ok.mp made
  obtain ⟨trainStart, starts, made⟩ := Runs.bind_ok.mp made
  cases made
  obtain ⟨endIndex, endDay⟩ := minusMonths_spec ends
  obtain ⟨splitIndex, splitDay⟩ := minusMonths_spec splits
  have index : validateEnd.monthIndex - (months : ℤ) =
      anchor.monthIndex - ((k + 1) * months : ℕ) := by
    rw [endIndex]
    push_cast
    ring
  rw [index] at splitIndex splitDay
  rw [endDay] at splitDay
  exact ⟨⟨endIndex, endDay⟩, ⟨splitIndex, splitDay⟩, minusMonths_le splits⟩

/-- The fold `k` strides back abuts on the one before it unless its month is shorter than
the anchor's day and than the month one stride earlier. -/
theorem abuts_iff {k : ℕ} {older newer : Fold}
    (newerMade : makeFold anchor trainMonths months months nFolds k = .ok newer)
    (olderMade : makeFold anchor trainMonths months months nFolds (k + 1) = .ok older) :
    Abuts older newer ↔ anchor.day ≤ strideLength anchor months k ∨
      strideLength anchor months (k + 1) ≤ strideLength anchor months k := by
  obtain ⟨-, ⟨splitIndex, splitDay⟩, -⟩ := makeFold_spec newerMade
  obtain ⟨⟨endIndex, endDay⟩, -, -⟩ := makeFold_spec olderMade
  rw [Abuts, eq_iff_monthIndex, splitIndex, endIndex, splitDay, endDay]
  omega

theorem makeFolds_made (made : makeFolds anchor trainMonths months months nFolds = .ok folds) :
    folds.length = nFolds ∧ ∀ k (inside : k < folds.reverse.length),
      makeFold anchor trainMonths months months nFolds k = .ok folds.reverse[k] := by
  unfold makeFolds at made
  split at made
  · cases made
  obtain ⟨values, computed, made⟩ := Runs.bind_ok.mp made
  cases made
  have each := mapM_forall computed
  have length := each.length_eq
  rw [List.length_range] at length
  refine ⟨by rw [List.length_reverse, length], ?_⟩
  intro k inside
  rw [List.reverse_reverse] at inside
  have there := each.get (by rw [List.length_range, length]; exact inside) inside
  simpa using there

/-- The validate windows tile the past exactly if no fold but the oldest ends in a month
that is shorter than the anchor's day and than the month one stride earlier. -/
theorem makeFolds_tiles_iff (made : makeFolds anchor trainMonths months months nFolds = .ok folds) :
    (folds.IsChain Abuts ∧ folds.Pairwise ValidateApart) ↔
      ∀ k, k + 1 < nFolds → anchor.day ≤ strideLength anchor months k ∨
        strideLength anchor months (k + 1) ≤ strideLength anchor months k := by
  obtain ⟨length, each⟩ := makeFolds_made made
  have ordered : ∀ fold ∈ folds, fold.splitDate.key ≤ fold.validateEnd.key := by
    intro fold listed
    obtain ⟨k, inside, rfl⟩ := List.getElem_of_mem (List.mem_reverse.mpr listed)
    exact (makeFold_spec (each k inside)).2.2
  have chain : folds.IsChain Abuts ↔ ∀ k, k + 1 < nFolds →
      anchor.day ≤ strideLength anchor months k ∨
        strideLength anchor months (k + 1) ≤ strideLength anchor months k := by
    rw [← List.isChain_reverse, List.isChain_iff_getElem]
    constructor
    · intro abut k inside
      have bound : k + 1 < folds.reverse.length := by
        rw [List.length_reverse, length]
        exact inside
      exact (abuts_iff (each k (Nat.lt_of_succ_lt bound)) (each (k + 1) bound)).mp (abut k bound)
    · intro condition k bound
      apply (abuts_iff (each k (Nat.lt_of_succ_lt bound)) (each (k + 1) bound)).mpr
      rw [List.length_reverse, length] at bound
      exact condition k bound
  constructor
  · rintro ⟨abut, -⟩
    exact chain.mp abut
  · intro condition
    have abut := chain.mpr condition
    exact ⟨abut, pairwise_apart ordered abut⟩

end Tiling

theorem le_strideLength (anchor : CivilDate) (months k : ℕ) :
    28 ≤ strideLength anchor months k := by
  unfold strideLength monthLength monthrange
  split_ifs <;> decide

def midMarch : CivilDate := ⟨2026, 3, 15, year_2026, by decide, by decide, by decide, by decide⟩

def endOfMarch : CivilDate := ⟨2026, 3, 31, by decide, by decide, by decide, by decide, by decide⟩

/-- In the middle of the month quarterly folds tile. -/
theorem midMarch_tiles : ∃ folds, makeFolds midMarch 12 3 3 4 = .ok folds ∧
    folds.IsChain Abuts ∧ folds.Pairwise ValidateApart := by
  obtain ⟨folds, made⟩ : ∃ folds, makeFolds midMarch 12 3 3 4 = .ok folds := by
    simp [makeFolds, makeFold, minusMonths, carryMonths, date, monthrange, midMarch,
      List.range_succ, bind, Except.bind, pure, Except.pure]
  refine ⟨folds, made, (makeFolds_tiles_iff made).mpr ?_⟩
  intro k _
  left
  have short : midMarch.day ≤ 28 := by decide
  exact short.trans (le_strideLength midMarch 3 k)

/-- The three monthly folds from the end of March. -/
def marchFolds : List Fold := [
  { index := 1
    trainStart := ⟨2024, 12, 31, by decide, by decide, by decide, by decide, by decide⟩
    splitDate := ⟨2025, 12, 31, by decide, by decide, by decide, by decide, by decide⟩
    validateEnd := ⟨2026, 1, 31, by decide, by decide, by decide, by decide, by decide⟩ },
  { index := 2
    trainStart := ⟨2025, 1, 28, by decide, by decide, by decide, by decide, by decide⟩
    splitDate := ⟨2026, 1, 28, by decide, by decide, by decide, by decide, by decide⟩
    validateEnd := ⟨2026, 2, 28, by decide, by decide, by decide, by decide, by decide⟩ },
  { index := 3
    trainStart := ⟨2025, 2, 28, by decide, by decide, by decide, by decide, by decide⟩
    splitDate := ⟨2026, 2, 28, by decide, by decide, by decide, by decide, by decide⟩
    validateEnd := endOfMarch }]

/-- The window that ends in February opens on the 28th of January, and the one before it
ends on the 31st. -/
theorem endOfMarch_overlaps : makeFolds endOfMarch 12 1 1 3 = .ok marchFolds ∧
    ¬marchFolds.IsChain Abuts ∧ ¬marchFolds.Pairwise ValidateApart := by
  refine ⟨?_, ?_, ?_⟩
  · simp [makeFolds, makeFold, minusMonths, carryMonths, date, monthrange, endOfMarch, marchFolds,
      List.range_succ, Nyse.isLeap, bind, Except.bind, pure, Except.pure]
  · intro chain
    have abuts : Abuts _ _ := (List.isChain_cons_cons.mp chain).1
    exact absurd abuts (by decide)
  · intro apart
    have disjoint := (List.pairwise_cons.mp apart).1 _ List.mem_cons_self
    apply disjoint ⟨2026, 1, 30, by decide, by decide, by decide, by decide, by decide⟩
    decide

end TradingEngine.WalkForward
