import TradingEngine.PriceEvidence
import TradingEngine.UntouchedBooks

/-!
# The split reconciliation

A reported split is decided once. The stored closes around its ex-date say whether the
series breaks there, where the break is, and whether the bars before it were stored on
the old scale; only then are they restated. Every decision leaves a watermark, and the
splits without one are decided in the order of their ex-dates. A restatement that raises
ends the pass.
-/

namespace TradingEngine.PriceStore

open KeyedTables Ledger Runs

variable (world : World)

section Adjudication

def Cell.value : Cell → Option ℚ
  | .number value => some value
  | _ => none

/-- A stored close with its last and its first fetch time. -/
structure WindowBar where
  date : Date
  close : ℚ
  fetchedAt : Option Instant
  firstStored : Option Instant
  deriving DecidableEq

/-- The bars of a ticker that have a close, by date. -/
def closingBars (store : Store) (ticker : String) : List WindowBar :=
  (store.prices.entries.filterMap fun bar =>
    if bar.1.1 = ticker then
      bar.2.quote.close.value.map fun close =>
        ⟨bar.1.2, close, bar.2.fetchedAt, bar.2.firstFetchedAt.or bar.2.fetchedAt⟩
    else none).insertionSort fun first second => first.date ≤ second.date

/-- Fifteen sessions before the ex-date and ten from it on. -/
def sessionWindow (store : Store) (ticker : String) (exDate : Date) : List WindowBar :=
  let before := (closingBars store ticker).filter fun bar => bar.date < exDate
  let after := (closingBars store ticker).filter fun bar => exDate ≤ bar.date
  before.drop (before.length - 15) ++ after.take 10

/-- The start of an island that is entered, and the dates of those that were left. -/
structure Islands where
  start : Option Nat
  dates : List Date

/-- Enter an island by the ratio, or leave it by the inverse within five sessions. -/
def islandStep (closes : List (Date × ℚ)) (ratio : ℚ) (islands : Islands) (i : Nat) : Islands :=
  match closes[i - 1]?, closes[i]? with
  | some previous, some current =>
    if previous.2 ≤ 0 ∨ current.2 ≤ 0 then { islands with start := none }
    else if inBand (previous.2 / current.2) ratio then { islands with start := some i }
    else
      match islands.start with
      | none => islands
      | some start =>
        if inBand (previous.2 / current.2 * ratio) 1 then
          ⟨none, if i - start ≤ 5 then
            islands.dates ++ ((closes.take i).drop start).map Prod.fst else islands.dates⟩
        else islands
  | _, _ => islands

/-- Dates of bars already on the new scale inside an old-scale run. -/
def newScaleIslands (closes : List (Date × ℚ)) (ratio : ℚ) : List Date :=
  ((List.range' 1 (closes.length - 1)).foldl (islandStep closes ratio) ⟨none, []⟩).dates

/-- A recorded rewrite by the split's ratio starts at the break and replaced bars that were
stored no earlier than those before it. -/
def rewriteShowsOldScale (store : Store) (ticker : String) (ratio : ℚ) (breakDate : Date)
    (storedAt : Instant) : Bool :=
  store.rewrites.any fun rewrite =>
    decide (rewrite.ticker = ticker) && decide (0 < rewrite.ratio) && inBand rewrite.ratio ratio &&
      decide (rewrite.dates.head? = some breakDate) &&
      rewrite.replacedFetchedAt.any fun replacedAt => decide (storedAt ≤ replacedAt)

/-- A session whose close ratio matches the split. -/
structure Break where
  distance : Int
  index : Nat
  date : Date
  observed : ℚ

/-- The breaks nearest to the ex-date, allowed and not, and the largest move by it. -/
structure Scan where
  near : Option Break
  far : Option Break
  worst : ℚ

/-- The first of the nearest breaks. -/
def closer (found : Option Break) (other : Break) : Option Break :=
  match found with
  | none => some other
  | some first => if other.distance < first.distance then some other else some first

/-- Look at one session of the window. -/
def scanStep (window : List WindowBar) (ratio : ℚ) (exIndex : Nat) (recent : Bool) (scan : Scan)
    (i : Nat) : Scan :=
  match window[i - 1]?, window[i]? with
  | some previous, some current =>
    if previous.close ≤ 0 ∨ current.close ≤ 0 then scan
    else
      let observed := previous.close / current.close
      let distance : Int := i - exIndex
      let moved := if |distance| ≤ 4 then
        { scan with worst := max scan.worst (max observed (1 / observed)) } else scan
      let candidate : Break := ⟨|distance|, i, current.date, observed⟩
      if !inBand observed ratio then moved
      else if |distance| ≤ 5 ∨ (recent ∧ 0 < distance) then
        { moved with near := closer moved.near candidate }
      else { moved with far := closer moved.far candidate }
  | _, _ => scan

/-- What the stored series says about a split. -/
inductive Verdict where
  | appliedPending (breakDate : Date) (observed : ℚ) (newScaleDates : List Date)
  | recorded (outcome : Outcome) (breakDate : Option Date) (observed : Option ℚ)

/-- The bars before a break were first stored before the ex-date, or a rewrite shows that
they were stored on the old scale. -/
def adjudicateBreak (store : Store) (ticker : String) (exDate : Date) (ratio : ℚ)
    (window : List WindowBar) (found : Break) : Verdict :=
  let before := window.take found.index
  let islands := newScaleIslands (before.map fun bar => (bar.date, bar.close)) ratio
  let oldScale := before.filter fun bar => !islands.contains bar.date
  let stored := (oldScale.filterMap WindowBar.fetchedAt).max?
  let first := ((oldScale.filterMap WindowBar.firstStored).map Nyse.dateOf).max?
  if first.any (fun day => decide (exDate ≤ day)) &&
      !stored.any (rewriteShowsOldScale store ticker ratio found.date) then
    .recorded .skippedAlreadyAdjusted (some found.date) (some found.observed)
  else .appliedPending found.date found.observed (islands.insertionSort (· ≤ ·))

/-- Decide what the stored series says about a split. -/
def adjudicate (store : Store) (ticker : String) (exDate : Date) (ratio : ℚ) : Verdict :=
  let dates := (store.prices.keys.filter fun key => key.1 = ticker).map Prod.snd
  let window := sessionWindow store ticker exDate
  let exIndex := window.findIdx fun bar => exDate ≤ bar.date
  if ratio ≤ 0 then .recorded .skippedSanity none none
  else if !apart ratio then .recorded .skippedAmbiguous none none
  else if dates = [] then .recorded .skippedNoBars none none
  else if dates.all fun day => exDate ≤ day then .recorded .noopPreHistory none none
  else if window.length < 2 ∨ window.length ≤ exIndex then .recorded .skippedNoBars none none
  else
    let recent := (dates.filter fun day => exDate ≤ day).length ≤ 10
    let scan := (List.range' 1 (window.length - 1)).foldl
      (scanStep window ratio exIndex recent) ⟨none, none, 1⟩
    match scan.near, scan.far with
    | some found, _ => adjudicateBreak store ticker exDate ratio window found
    | none, some found =>
      .recorded .skippedNoBreakNearEx (some found.date) (some found.observed)
    | none, none =>
      if 36 / 25 < scan.worst then .recorded .skippedSanity none (some scan.worst)
      else .recorded .noopRestated none none

end Adjudication

section Decisions

/-- The restatement that a verdict asks for. -/
def restatementOf (split : Key × ℚ) (breakDate : Date) (newScaleDates : List Date) : Restatement :=
  ⟨split.1.1, split.1.2, split.2, breakDate, newScaleDates⟩

/-- Adjudicate one split and act on the verdict: restate, or record the outcome. -/
def decideSplit (now : Instant) (split : Key × ℚ) (store : Store) : Except Raised Store :=
  match adjudicate store split.1.1 split.1.2 split.2 with
  | .appliedPending breakDate _ newScaleDates =>
    restate world now (restatementOf split breakDate newScaleDates) store
  | .recorded outcome breakDate observed =>
    .ok { store with
      adjustments := store.adjustments.insert split.1
        ⟨split.2, outcome, observed, breakDate, 0, now⟩ }

/-- Decide one split after another until one raises. What was decided before stays. -/
def decideSplits (now : Instant) : List (Key × ℚ) → Store → Store × Option Raised
  | [], store => (store, none)
  | split :: rest, store =>
    match decideSplit world now split store with
    | .error raised => (store, some raised)
    | .ok next => decideSplits now rest next

/-- The splits up to the newest session that have no watermark, by ex-date and ticker. -/
def unadjudicated (store : Store) : List (Key × ℚ) :=
  match store.latest with
  | none => []
  | some latest =>
    ((store.splits.entries.filter fun split =>
      decide (split.1.2 ≤ latest) && (store.adjustments.lookup split.1).isNone).map
        fun split => (split.1, split.2)).insertionSort fun first second =>
          toLex (first.1.2, first.1.1) ≤ toLex (second.1.2, second.1.1)

/-- Adjudicate every split that was not yet considered. -/
def reconcile (now : Instant) (store : Store) : Store × Option Raised :=
  decideSplits world now (unadjudicated store) store

end Decisions

end TradingEngine.PriceStore
