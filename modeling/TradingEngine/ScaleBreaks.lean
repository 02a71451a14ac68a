import TradingEngine.PriceEvidence

/-!
# Breaks of scale that a batch would bring

A batch is merged with the stored closes that it overlaps and with the one on either side.
Every two neighbours after the batch of which one came with it are neighbours among these, and
the others were neighbours before. A ticker with a split-sized step that no recorded split
explains is held back, and so is one whose stored closes it would replace by such a ratio.
-/

namespace TradingEngine.PriceStore

open KeyedTables Ledger

/-- The close that is stored under a ticker and a date. -/
def closeAt (store : Store) (ticker : String) (day : Date) : Option ℚ :=
  (store.prices.lookup (ticker, day)).bind fun row => row.quote.close.price

/-- Two dates with closes and none between them. -/
structure Neighbours (store : Store) (ticker : String) (first second : Date) : Prop where
  ordered : first < second
  earlier : (closeAt store ticker first).isSome = true
  later : (closeAt store ticker second).isSome = true
  between : ∀ day, first < day → day < second → closeAt store ticker day = none

/-- A recorded split of the ratio, or of its inverse, within seven days. -/
def Explained (store : Store) (ticker : String) (ratio : ℚ) (day : Date) : Prop :=
  ∃ action ∈ store.splits.entries, action.1.1 = ticker ∧ |action.1.2 - day| ≤ 7 ∧
    0 < action.2 ∧ (inBand ratio action.2 = true ∨ inBand (ratio * action.2) 1 = true)

/-- The ratio is not split-sized, or a split explains it. -/
def Accounted (store : Store) (ticker : String) (ratio : ℚ) (day : Date) : Prop :=
  splitLikeFactor ratio = none ∨ Explained store ticker ratio day

section Closes

variable {store : Store} {ticker : String} {ratio : ℚ} {day : Date}

theorem unexplained_eq_false :
    unexplained store ticker ratio day = false ↔ Accounted store ticker ratio day := by
  unfold unexplained Accounted
  rw [Bool.and_eq_false_iff, Option.isSome_eq_false_iff, Option.isNone_iff_eq_none,
    Bool.not_eq_false', List.any_eq_true]
  simp only [Explained, Bool.and_eq_true, Bool.or_eq_true, decide_eq_true_eq, and_assoc]

theorem splitLikeFactor_one : splitLikeFactor 1 = none := by
  decide +kernel

theorem accounted_self {close : ℚ} (nonzero : close ≠ 0) :
    Accounted store ticker (close / close) day := by
  left
  rw [div_self nonzero]
  exact splitLikeFactor_one

theorem price_pos {cell : Cell} {close : ℚ} (priced : cell.price = some close) : 0 < close := by
  unfold Cell.price at priced
  split at priced
  · split at priced
    · cases priced
      assumption
    · cases priced
  · cases priced

theorem closeAt_pos {close : ℚ} (stored : closeAt store ticker day = some close) : 0 < close := by
  obtain ⟨row, -, priced⟩ := Option.bind_eq_some_iff.mp stored
  exact price_pos priced

theorem isClose_self (value : ℚ) : isClose value value (1 / 10 ^ 6) 0 = true := by
  simp [isClose]

end Closes

section Lists

theorem pair_mem_of_lookup {κ β : Type*} [DecidableEq κ] {pairs : List (κ × β)} {key : κ}
    {value : β} (found : pairs.lookup key = some value) : (key, value) ∈ pairs := by
  obtain ⟨before, after, rfl, -⟩ := List.lookup_eq_some_iff.mp found
  exact List.mem_append_right _ List.mem_cons_self

theorem exists_lookup {κ β : Type*} [DecidableEq κ] {pairs : List (κ × β)} {key : κ} {value : β}
    (listed : (key, value) ∈ pairs) : ∃ other, pairs.lookup key = some other := by
  apply Option.isSome_iff_exists.mp
  exact List.lookup_isSome_iff.mpr ⟨(key, value), listed, beq_self_eq_true key⟩

theorem exists_of_any {α : Type*} {value : Option α} {test : α → Bool}
    (passes : value.any test = true) : ∃ element, value = some element ∧ test element = true := by
  cases value with
  | none => cases passes
  | some element => exact ⟨element, rfl, passes⟩

theorem strictly_sorted (elements : List Int) :
    (elements.dedup.insertionSort (· ≤ ·)).Pairwise (· < ·) := by
  have sorted := List.pairwise_insertionSort (fun one two : Int => one ≤ two) elements.dedup
  have distinct : (elements.dedup.insertionSort (· ≤ ·)).Nodup :=
    (List.perm_insertionSort _ _).nodup_iff.mpr (List.nodup_dedup _)
  exact (sorted.and distinct).imp fun both => lt_of_le_of_ne both.1 both.2

/-- In a sorted list two elements with none between them follow one another. -/
theorem mem_zip_tail {elements : List Int} (sorted : elements.Pairwise (· < ·)) {first second : Int}
    (ordered : first < second) (listed : first ∈ elements) (listed' : second ∈ elements)
    (between : ∀ other ∈ elements, ¬(first < other ∧ other < second)) :
    (first, second) ∈ elements.zip elements.tail := by
  induction elements with
  | nil => cases listed
  | cons head rest ih =>
    obtain ⟨least, sorted⟩ := List.pairwise_cons.mp sorted
    rw [List.tail_cons]
    cases rest with
    | nil =>
      rw [List.mem_singleton] at listed listed'
      omega
    | cons next others =>
      have nextLeast : ∀ other ∈ others, next < other := (List.pairwise_cons.mp sorted).1
      rw [List.zip_cons_cons, List.mem_cons]
      rcases List.mem_cons.mp listed with rfl | later
      · -- The next element is not between the two, so it is the second.
        left
        have follows : second ∈ next :: others := by
          rcases List.mem_cons.mp listed' with same | later
          · omega
          · exact later
        have above := least next List.mem_cons_self
        have notBefore := between next (List.mem_cons_of_mem _ List.mem_cons_self)
        rcases List.mem_cons.mp follows with rfl | later
        · rfl
        · have after := nextLeast second later
          omega
      · right
        have above := least first later
        have follows : second ∈ next :: others := by
          rcases List.mem_cons.mp listed' with rfl | later
          · omega
          · exact later
        exact ih sorted later follows fun other member =>
          between other (List.mem_cons_of_mem _ member)

end Lists

section Windows

variable {world : World} {store : Store} {ticker : String} {frame : List Observation}
  {incoming : List (Date × ℚ)} {day : Date} {close : ℚ}

theorem mem_incomingCloses :
    (day, close) ∈ incomingCloses frame ticker ↔
      ∃ row ∈ frame, row.key = some (ticker, day) ∧ row.quote.close.price = some close := by
  simp only [incomingCloses, List.mem_filterMap, Observation.key]
  constructor
  · rintro ⟨row, listed, found⟩
    split at found
    · rename_i named
      obtain ⟨dated, read, found⟩ := Option.bind_eq_some_iff.mp found
      obtain ⟨value, priced, same⟩ := Option.map_eq_some_iff.mp found
      cases same
      exact ⟨row, listed, by rw [read, ← named]; rfl, priced⟩
    · cases found
  · rintro ⟨row, listed, keyed, priced⟩
    obtain ⟨dated, read, same⟩ := Option.map_eq_some_iff.mp keyed
    obtain ⟨named, rfl⟩ := Prod.mk.inj same
    refine ⟨row, listed, ?_⟩
    rw [if_pos named, read, Option.bind_some, priced]
    rfl

/-- The stored dates of a ticker. -/
def datesOf (store : Store) (ticker : String) : List Date :=
  (store.prices.keys.filter fun key => key.1 = ticker).map Prod.snd

theorem mem_datesOf (stored : closeAt store ticker day = some close) :
    day ∈ datesOf store ticker := by
  obtain ⟨row, found, -⟩ := Option.bind_eq_some_iff.mp stored
  apply List.mem_map.mpr
  refine ⟨(ticker, day), List.mem_filter.mpr ⟨?_, by simp⟩, rfl⟩
  apply AList.mem_keys.mp
  apply AList.lookup_isSome.mp
  rw [found]
  rfl

/-- The stored dates of the window of a batch, with the one on either side. -/
def InWindow (store : Store) (ticker : String) (first last day : Date) : Prop :=
  (first ≤ day ∧ day ≤ last) ∨ ((datesOf store ticker).filter (· < first)).max? = some day ∨
    ((datesOf store ticker).filter (last < ·)).min? = some day

variable {first last : Date}

theorem mem_retainedCloses (least : (incoming.map Prod.fst).min? = some first)
    (most : (incoming.map Prod.fst).max? = some last) :
    (day, close) ∈ retainedCloses store ticker incoming ↔
      InWindow store ticker first last day ∧ closeAt store ticker day = some close := by
  simp only [retainedCloses, least, most, List.mem_filterMap]
  constructor
  · rintro ⟨⟨key, row⟩, listed, found⟩
    split at found
    · rename_i inside
      obtain ⟨value, priced, same⟩ := Option.map_eq_some_iff.mp found
      cases same
      obtain ⟨rfl, window⟩ := inside
      refine ⟨window, ?_⟩
      rw [closeAt, AList.mem_lookup_iff.mpr listed, Option.bind_some]
      exact priced
    · cases found
  · rintro ⟨window, stored⟩
    obtain ⟨row, found, priced⟩ := Option.bind_eq_some_iff.mp stored
    refine ⟨⟨(ticker, day), row⟩, AList.mem_lookup_iff.mp found, ?_⟩
    rw [if_pos ⟨rfl, window⟩, priced]
    rfl

theorem lookup_retainedCloses (least : (incoming.map Prod.fst).min? = some first)
    (most : (incoming.map Prod.fst).max? = some last) :
    (retainedCloses store ticker incoming).lookup day = some close ↔
      InWindow store ticker first last day ∧ closeAt store ticker day = some close := by
  constructor
  · intro found
    exact (mem_retainedCloses least most).mp (pair_mem_of_lookup found)
  · intro retained
    obtain ⟨other, found⟩ := exists_lookup ((mem_retainedCloses least most).mpr retained)
    have same := ((mem_retainedCloses least most).mp (pair_mem_of_lookup found)).2
    rw [retained.2] at same
    rw [found, Option.some.inj same]

end Windows

section Batches

variable {world : World} {store : Store} {now : Instant} {frame : Frame} {ticker : String}
  {day : Date}

/-- The rows of a batch that the validator has nothing against. -/
def admitted (world : World) (now : Instant) (frame : Frame) (store : Store) : List Observation :=
  passed (validatedObservations world store (frame.filled now))

/-- A ticker that a batch leaves as it is. -/
def Held (world : World) (now : Instant) (frame : Frame) (store : Store) (ticker : String) : Prop :=
  basisUnverified store (admitted world now frame store) ticker = true

theorem mem_promoted {row : Observation} :
    row ∈ (sortOut world store (frame.filled now)).promoted ↔
      row ∈ admitted world now frame store ∧
        ¬Held world now frame store row.ticker.text := by
  change row ∈ (admitted world now frame store).filter _ ↔ _
  rw [List.mem_filter, Bool.not_eq_true', Held, Bool.not_eq_true]
  rfl

theorem ticker_of_key {row : Observation} (keyed : row.key = some (ticker, day)) :
    row.ticker.text = ticker := by
  obtain ⟨_, -, same⟩ := Option.map_eq_some_iff.mp keyed
  exact (Prod.mk.inj same).1

theorem promoted_unique {rows : List Observation} {row other : Observation} {key : Key}
    (listed : row ∈ (sortOut world store rows).promoted)
    (listed' : other ∈ (sortOut world store rows).promoted) (keyed : row.key = some key)
    (keyed' : other.key = some key) : row = other := by
  by_contra different
  have symmetric : Std.Symm fun row other : Observation =>
      ∀ key, row.key = some key → other.key ≠ some key :=
    ⟨fun _ _ apart key keyed also => apart key also keyed⟩
  exact promoted_distinct.forall listed listed' different key keyed keyed'

theorem promoted_priced {rows : List Observation} {row : Observation} {key : Key}
    (listed : row ∈ (sortOut world store rows).promoted) (keyed : row.key = some key) :
    ∃ close, row.quote.close.price = some close := by
  obtain ⟨-, figures, ranged, same, -⟩ := (promoted_admissible listed).2 key keyed none
  change row.quote = figures.quote at same
  refine ⟨figures.close, ?_⟩
  rw [same]
  simp [Figures.quote, Cell.price, ranged.close]

theorem closeAt_held (held : Held world now frame store ticker) :
    closeAt (upsertPrices world now frame store) ticker day = closeAt store ticker day := by
  rcases lookup_promote store.prices promoted_distinct (ticker, day) with
    ⟨same, -⟩ | ⟨row, listed, keyed, -⟩
  · exact congrArg (·.bind fun row => row.quote.close.price) same
  · have free := (mem_promoted.mp listed).2
    rw [ticker_of_key keyed] at free
    exact absurd held free

/-- The closes of any other ticker are the incoming ones over the stored ones. -/
theorem closeAt_upsert (free : ¬Held world now frame store ticker) :
    closeAt (upsertPrices world now frame store) ticker day =
      ((incomingCloses (admitted world now frame store) ticker).lookup day).or
        (closeAt store ticker day) := by
  have promoted {row : Observation} (listed : row ∈ admitted world now frame store)
      (keyed : row.key = some (ticker, day)) :
      row ∈ (sortOut world store (frame.filled now)).promoted := by
    rw [mem_promoted, ticker_of_key keyed]
    exact ⟨listed, free⟩
  rcases lookup_promote store.prices promoted_distinct (ticker, day) with
    ⟨same, none_⟩ | ⟨row, listed, keyed, found⟩
  · have absent : (incomingCloses (admitted world now frame store) ticker).lookup day = none := by
      apply Option.eq_none_iff_forall_not_mem.mpr
      intro close found
      obtain ⟨row, listed, keyed, -⟩ := mem_incomingCloses.mp (pair_mem_of_lookup found)
      exact none_ row (promoted listed keyed) keyed
    rw [absent, Option.none_or]
    exact congrArg (·.bind fun row => row.quote.close.price) same
  · obtain ⟨close, priced⟩ := promoted_priced listed keyed
    obtain ⟨other, looked⟩ := exists_lookup
      (mem_incomingCloses.mpr ⟨row, (mem_promoted.mp listed).1, keyed, priced⟩)
    obtain ⟨same, sameListed, sameKeyed, samePriced⟩ :=
      mem_incomingCloses.mp (pair_mem_of_lookup looked)
    obtain rfl := promoted_unique listed (promoted sameListed sameKeyed) keyed sameKeyed
    rw [looked, Option.some_or, ← samePriced]
    change ((List.foldl promote store.prices _).lookup (ticker, day)).bind _ = _
    rw [found, Option.bind_some]
    rfl

theorem closeAt_stays (stored : (closeAt store ticker day).isSome = true) :
    (closeAt (upsertPrices world now frame store) ticker day).isSome = true := by
  by_cases held : Held world now frame store ticker
  · rw [closeAt_held held]
    exact stored
  · rw [closeAt_upsert held, Option.isSome_or, stored, Bool.or_true]

theorem Neighbours.before {first second : Date}
    (neighbours : Neighbours (upsertPrices world now frame store) ticker first second)
    (earlier : (closeAt store ticker first).isSome = true)
    (later : (closeAt store ticker second).isSome = true) :
    Neighbours store ticker first second := by
  refine ⟨neighbours.ordered, earlier, later, ?_⟩
  intro day after before
  by_contra stored
  have stays : (closeAt (upsertPrices world now frame store) ticker day).isSome = true :=
    closeAt_stays (Option.isSome_iff_ne_none.mpr stored)
  rw [neighbours.between day after before] at stays
  cases stays

/-- Of a ticker that is not held back, the batch and what it overlaps pass the checks. -/
structure Checked (store : Store) (ticker : String) (incoming : List (Date × ℚ)) : Prop where
  revised : ∀ day new old, incoming.lookup day = some new →
    (retainedCloses store ticker incoming).lookup day = some old →
      Accounted store ticker (new / old) day
  stepped : ∀ first second, (first, second) ∈
      ((((retainedCloses store ticker incoming ++ incoming).map Prod.fst).dedup.insertionSort
        (· ≤ ·)).zip (((retainedCloses store ticker incoming ++ incoming).map
          Prod.fst).dedup.insertionSort (· ≤ ·)).tail) →
    (incoming.lookup first).isSome = true ∨ (incoming.lookup second).isSome = true →
    ∀ one two, (incoming.lookup first).or
        ((retainedCloses store ticker incoming).lookup first) = some one →
      (incoming.lookup second).or
        ((retainedCloses store ticker incoming).lookup second) = some two →
    (∃ old old', (retainedCloses store ticker incoming).lookup first = some old ∧
      (retainedCloses store ticker incoming).lookup second = some old' ∧
        isClose (two / one) (old' / old) (1 / 10 ^ 6) 0 = true) ∨
      Accounted store ticker (two / one) second

theorem checked_of_free {incoming : List Observation}
    (free : basisUnverified store incoming ticker = false) :
    Checked store ticker (incomingCloses incoming ticker) := by
  unfold basisUnverified at free
  obtain ⟨revised, broken⟩ := Bool.or_eq_false_iff.mp free
  constructor
  · intro day new old found stored
    have fine := List.any_eq_false.mp revised (day, new) (pair_mem_of_lookup found)
    rw [stored, Option.any_some, Bool.not_eq_true] at fine
    exact unexplained_eq_false.mp fine
  · intro first second follows some_ one two earlier later
    have fine := List.any_eq_false.mp broken (first, second) follows
    dsimp only at fine
    rw [earlier, later, Option.getD_some, Option.getD_some, Bool.or_eq_true_iff.mpr some_,
      Bool.true_and, Bool.not_eq_true, Bool.and_eq_false_iff, Bool.not_eq_false'] at fine
    rcases fine with close | accounted
    · left
      obtain ⟨old, found, close⟩ := exists_of_any close
      obtain ⟨old', found', close⟩ := exists_of_any close
      exact ⟨old, old', found, found', close⟩
    · exact .inr (unexplained_eq_false.mp accounted)

variable {first second : Date}

/-- Every stored date has a usable close. -/
def Priced (store : Store) : Prop :=
  ∀ ticker, ∀ day ∈ datesOf store ticker, (closeAt store ticker day).isSome = true

/-- The stored dates of fit bars have usable closes. -/
theorem priced_of_fit (fit : AllFit world store.prices) : Priced store := by
  intro ticker day listed
  obtain ⟨key, member, rfl⟩ := List.mem_map.mp listed
  obtain ⟨stored, named⟩ := List.mem_filter.mp member
  obtain ⟨row, found⟩ := Option.isSome_iff_exists.mp
    (AList.lookup_isSome.mpr (AList.mem_keys.mpr stored))
  obtain ⟨-, figures, ranged, same, -⟩ := fit key row found
  have key' : (ticker, key.2) = key := Prod.ext (of_decide_eq_true named).symm rfl
  rw [closeAt, key', found, Option.bind_some, same]
  simp [Figures.quote, Cell.price, ranged.close]

/-- A stored date with nothing stored between it and a date of the batch is in its window. -/
theorem window_of_neighbours (priced : Priced store) {incoming : List (Date × ℚ)}
    {lowest highest : Date}
    (least : (incoming.map Prod.fst).min? = some lowest)
    (most : (incoming.map Prod.fst).max? = some highest)
    (stored : (closeAt store ticker day).isSome = true)
    (near : ∃ other, (incoming.lookup other).isSome = true ∧
      ((other < day ∧ ∀ between, other < between → between < day →
          closeAt store ticker between = none) ∨
        (day < other ∧ ∀ between, day < between → between < other →
          closeAt store ticker between = none))) :
    InWindow store ticker lowest highest day := by
  obtain ⟨other, present, side⟩ := near
  obtain ⟨value, found⟩ := Option.isSome_iff_exists.mp present
  have listed : other ∈ incoming.map Prod.fst :=
    List.mem_map.mpr ⟨(other, value), pair_mem_of_lookup found, rfl⟩
  have low : lowest ≤ other := (List.min?_eq_some_iff.mp least).2 _ listed
  have high : other ≤ highest := (List.max?_eq_some_iff.mp most).2 _ listed
  obtain ⟨close, stored⟩ := Option.isSome_iff_exists.mp stored
  have dated := mem_datesOf stored
  by_cases inside : lowest ≤ day ∧ day ≤ highest
  · exact .inl inside
  right
  rcases side with ⟨before, none_⟩ | ⟨after, none_⟩
  · right
    have above : highest < day := by
      by_contra below
      exact inside ⟨low.trans before.le, not_lt.mp below⟩
    rw [List.min?_eq_some_iff]
    refine ⟨List.mem_filter.mpr ⟨dated, decide_eq_true above⟩, ?_⟩
    intro between listed
    obtain ⟨betweenDated, betweenAbove⟩ := List.mem_filter.mp listed
    by_contra earlier
    have some_ := priced ticker between betweenDated
    rw [none_ between (high.trans_lt (of_decide_eq_true betweenAbove)) (not_le.mp earlier)]
      at some_
    cases some_
  · left
    have below : day < lowest := by
      by_contra above
      exact inside ⟨not_lt.mp above, after.le.trans high⟩
    rw [List.max?_eq_some_iff]
    refine ⟨List.mem_filter.mpr ⟨dated, decide_eq_true below⟩, ?_⟩
    intro between listed
    obtain ⟨betweenDated, betweenBelow⟩ := List.mem_filter.mp listed
    by_contra later
    have some_ := priced ticker between betweenDated
    rw [none_ between (not_le.mp later) ((of_decide_eq_true betweenBelow).trans_le low)]
      at some_
    cases some_

/-- What a batch may do to a pair of neighbours. -/
def Coherent (before after : Store) (ticker : String) (first second : Date) : Prop :=
  ∃ one two, closeAt after ticker first = some one ∧ closeAt after ticker second = some two ∧
    ((Neighbours before ticker first second ∧ ∃ old old', closeAt before ticker first = some old ∧
        closeAt before ticker second = some old' ∧
          isClose (two / one) (old' / old) (1 / 10 ^ 6) 0 = true) ∨
      Accounted before ticker (two / one) second)

theorem coherent_of_same
    (neighbours : Neighbours (upsertPrices world now frame store) ticker first second)
    (earlier : closeAt (upsertPrices world now frame store) ticker first =
      closeAt store ticker first)
    (later : closeAt (upsertPrices world now frame store) ticker second =
      closeAt store ticker second) :
    Coherent store (upsertPrices world now frame store) ticker first second := by
  have stored := neighbours.earlier
  have stored' := neighbours.later
  obtain ⟨one, found⟩ := Option.isSome_iff_exists.mp stored
  obtain ⟨two, found'⟩ := Option.isSome_iff_exists.mp stored'
  rw [earlier] at stored
  rw [later] at stored'
  exact ⟨one, two, found, found', .inl ⟨neighbours.before stored stored', one, two,
    earlier ▸ found, later ▸ found', isClose_self _⟩⟩

/-- Neighbours of which one came with the batch were compared. -/
theorem coherent_of_incoming (priced : Priced store)
    (free : ¬Held world now frame store ticker)
    (neighbours : Neighbours (upsertPrices world now frame store) ticker first second)
    (came : ((incomingCloses (admitted world now frame store) ticker).lookup first).isSome =
        true ∨
      ((incomingCloses (admitted world now frame store) ticker).lookup second).isSome = true) :
    Coherent store (upsertPrices world now frame store) ticker first second := by
  have checked := checked_of_free (Bool.eq_false_iff.mpr free)
  have merged (day : Date) := @closeAt_upsert world store now frame ticker day free
  generalize incomingCloses (admitted world now frame store) ticker = incoming at *
  have stored (day : Date) (after : first < day) (before : day < second) :
      closeAt store ticker day = none ∧ incoming.lookup day = none := by
    have none_ := neighbours.between day after before
    rw [merged, Option.or_eq_none_iff] at none_
    exact ⟨none_.2, none_.1⟩
  obtain ⟨lowest, least⟩ : ∃ lowest, (incoming.map Prod.fst).min? = some lowest := by
    apply Option.ne_none_iff_exists'.mp
    rw [Ne, List.min?_eq_none_iff, List.map_eq_nil_iff]
    rintro rfl
    simp at came
  obtain ⟨highest, most⟩ : ∃ highest, (incoming.map Prod.fst).max? = some highest := by
    apply Option.ne_none_iff_exists'.mp
    rw [Ne, List.max?_eq_none_iff, List.map_eq_nil_iff]
    rintro rfl
    simp at came
  -- Either of the two came with the batch or is in the window of what came.
  have seen (day : Date) (value : ℚ)
      (after : closeAt (upsertPrices world now frame store) ticker day = some value)
      (near : (incoming.lookup day).isSome = true ∨ ((closeAt store ticker day).isSome = true →
        InWindow store ticker lowest highest day)) :
      (incoming.lookup day).or ((retainedCloses store ticker incoming).lookup day) =
        some value := by
    rw [merged] at after
    cases found : incoming.lookup day with
    | some incomingValue =>
      rw [found] at after
      exact after
    | none =>
      rw [found, Option.none_or] at after
      rw [Option.none_or, lookup_retainedCloses least most]
      rcases near with present | near
      · rw [found] at present
        cases present
      · exact ⟨near (by rw [after]; rfl), after⟩
  obtain ⟨one, found⟩ := Option.isSome_iff_exists.mp neighbours.earlier
  obtain ⟨two, found'⟩ := Option.isSome_iff_exists.mp neighbours.later
  have seenFirst := seen first one found (by
    by_cases present : (incoming.lookup first).isSome = true
    · exact .inl present
    · right
      intro kept
      exact window_of_neighbours priced least most kept ⟨second, came.resolve_left present,
        .inr ⟨neighbours.ordered, fun day after before => (stored day after before).1⟩⟩)
  have seenSecond := seen second two found' (by
    by_cases present : (incoming.lookup second).isSome = true
    · exact .inl present
    · right
      intro kept
      exact window_of_neighbours priced least most kept ⟨first, came.resolve_right present,
        .inl ⟨neighbours.ordered, fun day after before => (stored day after before).1⟩⟩)
  have listed (day : Date) (value : ℚ) (present : (incoming.lookup day).or
      ((retainedCloses store ticker incoming).lookup day) = some value) :
      day ∈ ((retainedCloses store ticker incoming ++ incoming).map Prod.fst).dedup.insertionSort
        (· ≤ ·) := by
    rw [List.mem_insertionSort, List.mem_dedup, List.map_append, List.mem_append]
    rcases Option.or_eq_some_iff.mp present with came | ⟨-, old⟩
    · exact .inr (List.mem_map.mpr ⟨_, pair_mem_of_lookup came, rfl⟩)
    · exact .inl (List.mem_map.mpr ⟨_, pair_mem_of_lookup old, rfl⟩)
  have follows := mem_zip_tail (strictly_sorted _) neighbours.ordered
    (listed first one seenFirst) (listed second two seenSecond) (by
      rintro other member ⟨after, before⟩
      rw [List.mem_insertionSort, List.mem_dedup, List.map_append, List.mem_append] at member
      rcases member with old | new
      · obtain ⟨⟨day, close⟩, retained, rfl⟩ := List.mem_map.mp old
        have kept := ((mem_retainedCloses least most).mp retained).2
        rw [(stored _ after before).1] at kept
        cases kept
      · obtain ⟨⟨day, close⟩, member, rfl⟩ := List.mem_map.mp new
        obtain ⟨value, looked⟩ := exists_lookup member
        rw [(stored _ after before).2] at looked
        cases looked)
  refine ⟨one, two, found, found', ?_⟩
  rcases checked.stepped first second follows came one two seenFirst seenSecond with
    ⟨old, old', kept, kept', close⟩ | accounted
  · left
    have before := ((lookup_retainedCloses least most).mp kept).2
    have before' := ((lookup_retainedCloses least most).mp kept').2
    exact ⟨neighbours.before (by rw [before]; rfl) (by rw [before']; rfl), old, old', before,
      before', close⟩
  · exact .inr accounted

/-- Any two neighbours after a batch are coherent. -/
theorem upsertPrices_neighbours (priced : Priced store)
    (neighbours : Neighbours (upsertPrices world now frame store) ticker first second) :
    Coherent store (upsertPrices world now frame store) ticker first second := by
  by_cases held : Held world now frame store ticker
  · exact coherent_of_same neighbours (closeAt_held held) (closeAt_held held)
  · by_cases came : ((incomingCloses (admitted world now frame store) ticker).lookup
        first).isSome = true ∨
      ((incomingCloses (admitted world now frame store) ticker).lookup second).isSome = true
    · exact coherent_of_incoming priced held neighbours came
    · push Not at came
      simp only [ne_eq, Bool.not_eq_true, Option.isSome_eq_false_iff,
        Option.isNone_iff_eq_none] at came
      apply coherent_of_same neighbours
      · rw [closeAt_upsert held, came.1, Option.none_or]
      · rw [closeAt_upsert held, came.2, Option.none_or]

/-- A stored close is replaced by an accounted ratio only. -/
theorem upsertPrices_replaces {old new : ℚ} (before : closeAt store ticker day = some old)
    (after : closeAt (upsertPrices world now frame store) ticker day = some new) :
    Accounted store ticker (new / old) day := by
  have same (kept : closeAt (upsertPrices world now frame store) ticker day =
      closeAt store ticker day) : Accounted store ticker (new / old) day := by
    rw [kept, before] at after
    obtain rfl := Option.some.inj after
    exact accounted_self (closeAt_pos before).ne'
  by_cases held : Held world now frame store ticker
  · exact same (closeAt_held held)
  · cases came : (incomingCloses (admitted world now frame store) ticker).lookup day with
    | none =>
      apply same
      rw [closeAt_upsert held, came, Option.none_or]
    | some close =>
      rw [closeAt_upsert held, came, Option.some_or] at after
      obtain rfl := Option.some.inj after
      have listed : day ∈ (incomingCloses (admitted world now frame store) ticker).map
          Prod.fst := List.mem_map.mpr ⟨_, pair_mem_of_lookup came, rfl⟩
      obtain ⟨lowest, least⟩ := Option.ne_none_iff_exists'.mp
        (mt List.min?_eq_none_iff.mp (List.ne_nil_of_mem listed))
      obtain ⟨highest, most⟩ := Option.ne_none_iff_exists'.mp
        (mt List.max?_eq_none_iff.mp (List.ne_nil_of_mem listed))
      apply (checked_of_free (Bool.eq_false_iff.mpr held)).revised day close old came
      apply (lookup_retainedCloses least most).mpr
      exact ⟨.inl ⟨(List.min?_eq_some_iff.mp least).2 _ listed,
        (List.max?_eq_some_iff.mp most).2 _ listed⟩, before⟩

end Batches

/-- In every store that the writers reach, two neighbours after a batch were neighbours with
that ratio before, or their ratio is accounted for; and a stored close is replaced by an
accounted ratio only. -/
theorem upsertPrices_coherent (world : World) (portfolios : List Portfolio)
    (operations : List Operation) (now : Instant) (frame : Frame) :
    (∀ ticker first second,
      Neighbours (upsertPrices world now frame (reached world portfolios operations)) ticker
        first second →
      Coherent (reached world portfolios operations)
        (upsertPrices world now frame (reached world portfolios operations)) ticker
        first second) ∧
    ∀ ticker day old new,
      closeAt (reached world portfolios operations) ticker day = some old →
      closeAt (upsertPrices world now frame (reached world portfolios operations)) ticker day =
        some new →
      Accounted (reached world portfolios operations) ticker (new / old) day := by
  constructor
  · intro ticker first second neighbours
    exact upsertPrices_neighbours (priced_of_fit (reached_fit portfolios operations)) neighbours
  · intro ticker day old new before after
    exact upsertPrices_replaces before after

/-- A batch of one sound bar whose close is a price that does not move in a day. -/
def oneClose (day : Date) (close : Int) : Frame :=
  ⟨[⟨.name "SPY", .reading day true, (⟨close, close, close, close, 1⟩ : Figures).quote, "test",
    none⟩], true, true⟩

/-- A bar is added after a stored one and replaces it. -/
theorem oneClose_coherent :
    Coherent (reached plainWorld [] [.upsertPrices 0 (oneClose 5 100)])
        (upsertPrices plainWorld 0 (oneClose 6 101)
          (reached plainWorld [] [.upsertPrices 0 (oneClose 5 100)])) "SPY" 5 6 ∧
      Accounted (reached plainWorld [] [.upsertPrices 0 (oneClose 5 100)]) "SPY" (102 / 100) 5 := by
  constructor
  · apply (upsertPrices_coherent plainWorld [] [.upsertPrices 0 (oneClose 5 100)] 0
      (oneClose 6 101)).1
    refine ⟨by decide, by decide +kernel, by decide +kernel, ?_⟩
    intro day after before
    exact absurd ((Int.add_one_le_of_lt after).trans_lt before) (by decide)
  · exact (upsertPrices_coherent plainWorld [] [.upsertPrices 0 (oneClose 5 100)] 0
      (oneClose 5 102)).2 "SPY" 5 100 102 (by decide +kernel) (by decide +kernel)

end TradingEngine.PriceStore
