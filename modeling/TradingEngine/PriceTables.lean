import TradingEngine.LedgerEvents
import TradingEngine.PriceAdmission

/-!
# The price table and its writers

Daily bars are stored under their ticker and date. Four writers change them: a batch of
fetched rows, a split restatement, the cleanup of hard-invalid bars and the retirement
of stale provisional ones. Whatever a writer refuses, replaces or removes is appended to
one evidence table. A writer that raises leaves everything as it was.

The tables hold what these writers and the split reconciliation read: the splits among
the corporate actions, the decided splits, the recorded rewrites, and the simulator's
portfolios, whose books a restatement replays from their own ledgers. Logarithmic bands
are compared as ratios.
-/

namespace TradingEngine.PriceStore

open KeyedTables Ledger

abbrev Key := String × Date

/-- A stored bar, under its ticker and date. -/
structure Row where
  quote : Quote
  source : String
  fetchedAt : Option Instant
  firstFetchedAt : Option Instant
  deriving DecidableEq

/-- A stored bar as the validator reads it. -/
def observe (key : Key) (row : Row) : Observation :=
  ⟨.name key.1, .reading key.2 true, row.quote, row.source, row.fetchedAt⟩

/-- A row of the evidence table: the original and why it is kept. -/
structure Evidence where
  observation : Observation
  firstFetchedAt : Option Instant
  recordedAt : Instant
  reason : String

/-- Stored closes that a fetch replaced by a split-sized ratio. -/
structure Rewrite where
  ticker : String
  dates : List Date
  ratio : ℚ
  replacedFetchedAt : Option Instant

inductive Outcome where
  | applied | noopRestated | noopPreHistory | skippedAmbiguous | skippedNoBars | skippedSanity
  | skippedNoBreakNearEx | skippedAlreadyAdjusted
  deriving DecidableEq

/-- The watermark of a decided split. -/
structure Adjustment where
  ratio : ℚ
  outcome : Outcome
  observed : Option ℚ
  breakDate : Option Date
  rowsRestated : Nat
  appliedAt : Instant

structure SimOrder where
  ticker : String
  qty : ℚ
  signalDate : Date
  pending : Bool

/-- A simulated portfolio: its orders, its retained ledger and its book. The splits of its
ledger are those of the reconciliation unless it is an account. -/
structure Portfolio where
  settings : LedgerSettings
  orders : List SimOrder
  ledger : LedgerTables
  book : Book

structure Store where
  prices : Table Key Row
  rejects : List Evidence
  rewrites : List Rewrite
  splits : Table Key ℚ
  adjustments : Table Key Adjustment
  portfolios : List Portfolio

/-- No price and no corporate action is stored. -/
def Store.empty (portfolios : List Portfolio) : Store := ⟨∅, [], [], ∅, ∅, portfolios⟩

/-- The newest stored session. -/
def Store.latest (store : Store) : Option Date := (store.prices.keys.map Prod.snd).max?

variable (world : World)

section Batches

/-- The rows of a fetch, and whether it has a source and a fetch time for each. -/
structure Frame where
  rows : List Observation
  sourced : Bool
  stamped : Bool

/-- Missing columns are filled in. -/
def Frame.filled (frame : Frame) (now : Instant) : List Observation :=
  frame.rows.map fun row =>
    { row with
      source := if frame.sourced then row.source else "yfinance"
      fetchedAt := if frame.stamped then row.fetchedAt else some now }

/-- A stored bar of the row's key passes admission. -/
def completeAt (store : Store) (row : Observation) : Bool :=
  row.date.day.any fun day =>
    (store.prices.lookup (row.ticker.text, day)).any fun stored => priceBarSql stored.quote

/-- Clear the reasons of a same-night bar whose only fault is the open's geometry, unless
a complete bar is stored. -/
def admitProvisionalOpenFaults (store : Store) (row : Observation) (reasons : List Fault) :
    List Fault :=
  if provisionalOpenOnlyFault world row reasons store.latest then
    if completeAt store row then [.provisionalReplacementSkipped] else []
  else reasons

/-- The ticker and day that a row is grouped by. -/
def coordinate (row : Observation) : String × (String ⊕ Date) :=
  (row.ticker.text,
    match row.date with
    | .unreadable text => .inl text
    | .reading day _ => .inr day)

def comparisonValue : Cell → Cell
  | .text characters => (characters.toInt?.map fun value => Cell.number value).getD (.text characters)
  | cell => cell

/-- The figures by which rows of one coordinate are compared. -/
def comparison (quote : Quote) : List Cell :=
  [quote.opening, quote.high, quote.low, quote.close, quote.volume].map comparisonValue

/-- Rows of one coordinate that differ are all refused; of equal ones the first stays. -/
def duplicateFaults (rows earlier : List Observation) (row : Observation) : List Fault :=
  if rows.any fun other => decide (coordinate other = coordinate row) &&
      decide (comparison other.quote ≠ comparison row.quote) then [.conflictingDuplicate]
  else if earlier.any fun other => decide (coordinate other = coordinate row) then
    [.identicalDuplicate]
  else []

/-- Every row with what is held against it. -/
def judge (store : Store) (rows : List Observation) :
    List Observation → List Observation → List (Observation × List Fault)
  | _, [] => []
  | earlier, row :: rest =>
    (row, admitProvisionalOpenFaults world store row (observationReasons world row) ++
      duplicateFaults rows earlier row) :: judge store rows (earlier ++ [row]) rest

/-- The rows of a batch with their reasons. -/
def validatedObservations (store : Store) (rows : List Observation) :
    List (Observation × List Fault) :=
  judge world store rows [] rows

def commonSplitFactors : List ℚ :=
  [3 / 2, 2, 3, 4, 5, 6, 8, 10, 12, 15, 20, 25, 50, 100, 200, 500, 1000]

/-- Two ratios lie within eight percent of one another. -/
def inBand (ratio factor : ℚ) : Bool :=
  decide (ratio ≤ factor * (27 / 25)) && decide (factor ≤ ratio * (27 / 25))

def splitLikeFactor (ratio : ℚ) : Option ℚ :=
  if ratio ≤ 0 then none
  else (commonSplitFactors ++ commonSplitFactors.map fun factor => 1 / factor).find? (inBand ratio)

/-- A split-sized ratio without a split of that size within seven days. -/
def unexplained (store : Store) (ticker : String) (ratio : ℚ) (day : Date) : Bool :=
  (splitLikeFactor ratio).isSome &&
    !store.splits.entries.any fun action =>
      decide (action.1.1 = ticker) && decide (|action.1.2 - day| ≤ 7) && decide (0 < action.2) &&
        (inBand ratio action.2 || inBand (ratio * action.2) 1)

/-- The incoming closes of a ticker. -/
def incomingCloses (frame : List Observation) (ticker : String) : List (Date × ℚ) :=
  frame.filterMap fun row =>
    if row.ticker.text = ticker then
      row.date.day.bind fun day => row.quote.close.price.map fun close => (day, close)
    else none

/-- The stored closes that overlap or adjoin the incoming ones. -/
def retainedCloses (store : Store) (ticker : String) (incoming : List (Date × ℚ)) :
    List (Date × ℚ) :=
  match (incoming.map Prod.fst).min?, (incoming.map Prod.fst).max? with
  | some first, some last =>
    let dates := (store.prices.keys.filter fun key => key.1 = ticker).map Prod.snd
    let before := (dates.filter (· < first)).max?
    let after := (dates.filter (last < ·)).min?
    store.prices.entries.filterMap fun bar =>
      if bar.1.1 = ticker ∧ ((first ≤ bar.1.2 ∧ bar.1.2 ≤ last) ∨ before = some bar.1.2 ∨
          after = some bar.1.2) then
        bar.2.quote.close.price.map fun close => (bar.1.2, close)
      else none
  | _, _ => []

/-- Check overlap revisions and both edges of a ticker's incoming window. -/
def basisUnverified (store : Store) (frame : List Observation) (ticker : String) : Bool :=
  let incoming := incomingCloses frame ticker
  let old := retainedCloses store ticker incoming
  let merged (day : Date) : ℚ := ((incoming.lookup day).or (old.lookup day)).getD 0
  let revised := incoming.any fun bar =>
    (old.lookup bar.1).any fun stored => unexplained store ticker (bar.2 / stored) bar.1
  let ordered := ((old ++ incoming).map Prod.fst).dedup.insertionSort (· ≤ ·)
  let broken := (ordered.zip ordered.tail).any fun (previous, day) =>
    ((incoming.lookup previous).isSome || (incoming.lookup day).isSome) &&
      !((old.lookup previous).any fun first => (old.lookup day).any fun second =>
        isClose (merged day / merged previous) (second / first) (1 / 10 ^ 6) 0) &&
      unexplained store ticker (merged day / merged previous) day
  revised || broken

/-- The middle of the sorted values, or the mean of the two middle ones. -/
def median (values : List ℚ) : ℚ :=
  let sorted := values.insertionSort (· ≤ ·)
  let half := sorted.length / 2
  if sorted.length % 2 = 1 then sorted.getD half 0
  else (sorted.getD (half - 1) 0 + sorted.getD half 0) / 2

/-- A ratio outside the band in which splits cannot be told from ordinary moves. -/
def apart (ratio : ℚ) : Bool := decide (36 / 25 ≤ ratio) || decide (ratio * (36 / 25) ≤ 1)

/-- The key that a row is stored under. -/
def Observation.key (row : Observation) : Option Key :=
  row.date.day.map fun day => (row.ticker.text, day)

/-- The stored closes of a ticker that a frame replaces by a split-sized ratio. -/
def splitLikeRows (store : Store) (frame : List Observation) (ticker : String) :
    List (Date × ℚ × Option Instant) :=
  (frame.filterMap fun row => do
    let key ← row.key
    let stored ← store.prices.lookup key
    let old ← stored.quote.close.price
    let new ← row.quote.close.price
    if key.1 = ticker ∧ apart (old / new) then some (key.2, old / new, stored.fetchedAt)
    else none).insertionSort fun first second => first.1 ≤ second.1

/-- One rewrite for each ticker whose stored closes change by a split-sized ratio. -/
def recordSplitLikeRewrites (store : Store) (frame : List Observation) : List Rewrite :=
  ((frame.map fun row => row.ticker.text).dedup.insertionSort (· ≤ ·)).filterMap fun ticker =>
    match splitLikeRows store frame ticker with
    | [] => none
    | items => some ⟨ticker, items.map Prod.fst, median (items.map fun item => item.2.1),
        (items.filterMap fun item => item.2.2).max?⟩

/-- What becomes of a stored row when a new one arrives under its key: the new values, and
the first fetch time that is known. -/
def replaced (stored : Option Row) (row : Observation) : Row where
  quote := row.quote
  source := row.source
  fetchedAt := row.fetchedAt
  firstFetchedAt :=
    match stored with
    | none => row.fetchedAt
    | some old => (old.firstFetchedAt.or old.fetchedAt).or row.fetchedAt

/-- Insert a row, or replace the one under its key. -/
def promote (prices : Table Key Row) (row : Observation) : Table Key Row :=
  match row.key with
  | none => prices
  | some key => prices.insert key (replaced (prices.lookup key) row)

/-- Evidence of an incoming row. -/
def Observation.evidence (row : Observation) (now : Instant) (reason : String) : Evidence :=
  ⟨row, none, now, reason⟩

/-- Evidence of a stored bar. -/
def archive (now : Instant) (reason : String) (bar : Σ _ : Key, Row) : Evidence :=
  ⟨observe bar.1 bar.2, bar.2.firstFetchedAt, now, reason⟩

/-- Reasons as one text. -/
def reasonText (faults : List Fault) : String := ",".intercalate (faults.map Fault.name)

/-- The rows of a batch by what becomes of them. -/
structure Sorted where
  refused : List (Observation × List Fault)
  held : List Observation
  promoted : List Observation

/-- Sort out the rows of a batch. -/
def sortOut (store : Store) (rows : List Observation) : Sorted :=
  let judged := validatedObservations world store rows
  let admitted := (judged.filter fun row => row.2.isEmpty).map Prod.fst
  let unverified (row : Observation) := basisUnverified store admitted row.ticker.text
  ⟨judged.filter fun row => !row.2.isEmpty, admitted.filter unverified,
    admitted.filter fun row => !unverified row⟩

/-- The stored bars that promoted rows replace. -/
def predecessors (store : Store) (promoted : List Observation) : List (Σ _ : Key, Row) :=
  promoted.filterMap fun row => do
    let key ← row.key
    let stored ← store.prices.lookup key
    return ⟨key, stored⟩

/-- Promote valid coherent daily bars, and retain the rejected originals. -/
def upsertPrices (now : Instant) (frame : Frame) (store : Store) : Store :=
  let batch := sortOut world store (frame.filled now)
  { store with
    prices := batch.promoted.foldl promote store.prices
    rejects := store.rejects ++
      batch.refused.map (fun row => row.1.evidence now (reasonText row.2)) ++
      batch.held.map (fun row => row.evidence now "basis_unverified") ++
      (predecessors store batch.promoted).map (archive now "replacement_predecessor")
    rewrites := store.rewrites ++ recordSplitLikeRewrites store batch.promoted }

end Batches

section Actions

/-- A reported corporate action. -/
structure ActionRow where
  ticker : String
  exDate : Option Date
  split : Bool
  value : Option ℚ

/-- The split that a reported row stores, if it is a usable split. -/
def ActionRow.stored (row : ActionRow) : Option (Key × ℚ) :=
  if row.split then
    row.exDate.bind fun day => row.value.bind fun value =>
      if 0 < value then some ((row.ticker, day), value) else none
  else none

/-- Insert or replace the reported splits. Of equal keys in one report the first counts. -/
def upsertActions (rows : List ActionRow) (store : Store) : Store :=
  { store with
    splits := (rows.filterMap ActionRow.stored).foldr
      (fun split table => table.insert split.1 split.2) store.splits }

end Actions

section Removals

/-- Archive the selected bars and delete them. -/
def removeBars (now : Instant) (reason : List Fault → String) (selected : Key → Row → Bool)
    (store : Store) : Store :=
  { store with
    prices := filterRows (fun key row => !selected key row) store.prices
    rejects := store.rejects ++ (store.prices.entries.filter fun bar => selected bar.1 bar.2).map
      fun bar => archive now (reason (observationReasons world (observe bar.1 bar.2))) bar }

/-- Bars that the cleanup looks at. -/
def hardInvalid (key : Key) (row : Row) : Bool := hardInvalidSql row.quote || !world.session key.2

/-- Bars that the cleanup moves: a provisional open fault stays for its next fetch. -/
def cleanupMoves (store : Store) (key : Key) (row : Row) : Bool :=
  hardInvalid world key row && !provisionalOpenOnlyFault world (observe key row)
    (observationReasons world (observe key row)) store.latest

/-- Move hard-invalid bars into the evidence table. It raises when the validator has
nothing against a bar that SQL selects. -/
def cleanupHardInvalidPrices (now : Instant) (dryRun : Bool) (store : Store) : Option Store :=
  if store.prices.entries.any fun bar => hardInvalid world bar.1 bar.2 &&
      (observationReasons world (observe bar.1 bar.2)).isEmpty then none
  else if dryRun then some store
  else some (removeBars world now reasonText (cleanupMoves world store) store)

/-- Never-settled bars dated before the newest session that fail admission. -/
def staleProvisional (latest : Date) (since : Option Date) (key : Key) (row : Row) : Bool :=
  decide (key.2 < latest) && since.all (fun first => decide (first ≤ key.2)) &&
    neverSettledSql world key.2 row.fetchedAt && !priceBarSql row.quote

/-- Move stale provisional bars into the evidence table. -/
def retireStaleProvisional (now : Instant) (since : Option Date) (dryRun : Bool) (store : Store) :
    Option Store :=
  match store.latest with
  | none => some store
  | some latest =>
    if store.prices.entries.any fun bar => staleProvisional world latest since bar.1 bar.2 &&
        (observationReasons world (observe bar.1 bar.2)).isEmpty then none
    else if dryRun then some store
    else some (removeBars world now (fun faults => "stale_provisional," ++ reasonText faults)
      (staleProvisional world latest since) store)

end Removals

/-- No cleanup finds that SQL and the validator disagree: in every store, the validator refuses
each bar that SQL selects. -/
theorem cleanups_agree (world : World) (now : Instant) (since : Option Date) (dryRun : Bool)
    (store : Store) :
    (cleanupHardInvalidPrices world now dryRun store).isSome = true ∧
      (retireStaleProvisional world now since dryRun store).isSome = true := by
  have agreed {selected : Key → Row → Bool} (refused : ∀ key row, selected key row = true →
      observationReasons world (observe key row) ≠ []) :
      ¬ (store.prices.entries.any fun bar => selected bar.1 bar.2 &&
        (observationReasons world (observe bar.1 bar.2)).isEmpty) = true := by
    intro some_
    obtain ⟨bar, -, both⟩ := List.any_eq_true.mp some_
    obtain ⟨chosen, sound⟩ := Bool.and_eq_true_iff.mp both
    exact refused _ _ chosen (List.isEmpty_iff.mp sound)
  constructor
  · have refused (key : Key) (row : Row) (hard : hardInvalid world key row = true) :
        observationReasons world (observe key row) ≠ [] := by
      intro sound
      simp only [observationReasons, List.append_eq_nil_iff] at sound
      rcases Bool.or_eq_true_iff.mp hard with invalid | away
      · exact reasons_of_hardInvalidSql invalid sound.1.1
      · simp [observe, dateFaults, show world.session key.2 = false by simpa using away] at sound
    unfold cleanupHardInvalidPrices
    rw [if_neg (agreed refused)]
    split <;> rfl
  · unfold retireStaleProvisional
    split
    · rfl
    · rename_i latest _
      have refused (key : Key) (row : Row)
          (stale : staleProvisional world latest since key row = true) :
          observationReasons world (observe key row) ≠ [] := by
        intro sound
        simp only [observationReasons, List.append_eq_nil_iff] at sound
        have fit : priceBarSql row.quote = true := priceBarSql_iff.mpr sound.1.1
        have unfit := (Bool.and_eq_true_iff.mp stale).2
        rw [fit] at unfit
        cases unfit
      rw [if_neg (agreed refused)]
      split <;> rfl

section Restatement

/-- Python rounds a half to the even neighbour. -/
def roundHalfEven (value : ℚ) : Int :=
  if value - ⌊value⌋ < 1 / 2 then ⌊value⌋
  else if 1 / 2 < value - ⌊value⌋ then ⌊value⌋ + 1
  else if ⌊value⌋ % 2 = 0 then ⌊value⌋ else ⌊value⌋ + 1

/-- SQL rounds a half away from zero. -/
def roundHalfAway (value : ℚ) : Int :=
  if 0 ≤ value then ⌊value + 1 / 2⌋ else ⌈value - 1 / 2⌉

def Cell.map (change : ℚ → ℚ) : Cell → Cell
  | .number value => .number (change value)
  | cell => cell

/-- A quote on the scale after a split. -/
def restatedQuote (round : ℚ → Int) (ratio : ℚ) (quote : Quote) : Quote where
  opening := quote.opening.map (· / ratio)
  high := quote.high.map (· / ratio)
  low := quote.low.map (· / ratio)
  close := quote.close.map (· / ratio)
  volume := quote.volume.map fun volume => round (volume * ratio)

/-- The value does not fit a BIGINT. -/
def outOfRange : Cell → Bool
  | .number value => decide (bigint < value) || decide (value < -2 ^ 63)
  | _ => false

/-- The bars that a restatement changes. -/
def restates (ticker : String) (breakDate : Date) (keep : List Date) (key : Key) : Bool :=
  decide (key.1 = ticker) && decide (key.2 < breakDate) && !keep.contains key.2

/-- The splits by which the simulator's books are replayed. -/
def splitFactors (adjustments : Table Key Adjustment) : Table Key SplitRatio :=
  adjustments.entries.foldr (fun row table =>
    if positive : row.2.outcome = .applied ∧ 0 < row.2.ratio then
      table.insert row.1 ⟨row.2.ratio, positive.2⟩
    else table) ∅

/-- A portfolio that the reconciliation keeps: accounts have their own splits. -/
def Portfolio.reconciled (portfolio : Portfolio) : Bool :=
  decide (portfolio.settings.engine ≠ .account)

/-- Replay a book from its ledger under the decided splits. -/
def rebuildSimState (splits : Table Key SplitRatio) (portfolio : Portfolio) :
    Except LedgerError Portfolio :=
  if portfolio.reconciled then
    (rebuildState world.zone portfolio.settings { portfolio.ledger with splits := splits } none).map
      fun book => { portfolio with book := book }
  else .ok portfolio

/-- Pending orders signalled before the ex-date are on the old scale. -/
def rescaleOrders (ticker : String) (exDate : Date) (ratio : ℚ) (portfolio : Portfolio) :
    Portfolio :=
  if portfolio.reconciled then
    { portfolio with
      orders := portfolio.orders.map fun order =>
        if order.ticker = ticker ∧ order.pending ∧ order.signalDate < exDate then
          { order with qty := order.qty * ratio }
        else order }
  else portfolio

inductive Raised where
  | invalidRestatement (ticker : String) (reasons : List Fault)
  | outOfRange
  | ledger (raised : LedgerError)

/-- What a split is restated by. -/
structure Restatement where
  ticker : String
  exDate : Date
  ratio : ℚ
  breakDate : Date
  keep : List Date

def Restatement.reaches (split : Restatement) (key : Key) : Bool :=
  restates split.ticker split.breakDate split.keep key

/-- What the validator has against a bar on the new scale. -/
def Restatement.faults (split : Restatement) (bar : Σ _ : Key, Row) : List Fault :=
  observationReasons world (observe bar.1
    { bar.2 with quote := restatedQuote roundHalfEven split.ratio bar.2.quote })

/-- A bar on the new scale. -/
def Restatement.bar (split : Restatement) (row : Row) : Row :=
  { row with quote := restatedQuote roundHalfAway split.ratio row.quote }

/-- The bars that a restatement changes, as they are before it. -/
def Restatement.previous (split : Restatement) (store : Store) : List (Σ _ : Key, Row) :=
  store.prices.entries.filter fun bar => split.reaches bar.1

/-- The watermarks with that of the split. -/
def Restatement.adjustments (now : Instant) (split : Restatement) (store : Store) :
    Table Key Adjustment :=
  store.adjustments.insert (split.ticker, split.exDate) ⟨split.ratio, .applied, some split.ratio,
    some split.breakDate, (split.previous store).length, now⟩

/-- The portfolios with their orders rescaled and their books replayed. -/
def Restatement.portfolios (now : Instant) (split : Restatement) (store : Store) :
    Except LedgerError (List Portfolio) :=
  store.portfolios.mapM fun portfolio =>
    rebuildSimState world (splitFactors (split.adjustments now store))
      (rescaleOrders split.ticker split.exDate split.ratio portfolio)

/-- What a restatement writes. -/
def Restatement.written (now : Instant) (split : Restatement) (store : Store)
    (portfolios : List Portfolio) : Store :=
  { store with
    prices := mapRows (fun key row => if split.reaches key then split.bar row else row) store.prices
    rejects := store.rejects ++
      (split.previous store).map (archive now "split_restatement_predecessor")
    adjustments := split.adjustments now store
    portfolios := portfolios }

/-- Restate the bars before the break, rescale the pending orders signalled before the
ex-date, write the watermark and replay the books, in one transaction. -/
def restate (now : Instant) (split : Restatement) (store : Store) : Except Raised Store :=
  match (split.previous store).find? fun bar => !(split.faults world bar).isEmpty with
  | some bar => .error (.invalidRestatement split.ticker (split.faults world bar))
  | none =>
    if (split.previous store).any fun bar => outOfRange (split.bar bar.2).quote.volume then
      .error .outOfRange
    else
      match split.portfolios world now store with
      | .error raised => .error (.ledger raised)
      | .ok portfolios => .ok (split.written now store portfolios)

end Restatement

end TradingEngine.PriceStore
