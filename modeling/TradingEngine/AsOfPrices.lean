import TradingEngine.KeyedTables
import TradingEngine.Nyse
import TradingEngine.Runs

/-!
# Prices as of an instant

A replay sees a bar once it is available, on the scale of the splits that are effective
and known. The whole view can be computed from the archive at any instant. A replay
instead keeps a table of prices up to date: a watermark says which bars are already
there, and a record of the known splits of every security says whose rows have to be
written again. At the open, a bar of the day that is not available yet is shown by its
open alone.

The archive holds validated bars and resolved splits only; a split that may not be
trusted raises wherever it is relevant and is left out. Prices are exact.
-/

namespace TradingEngine.AsOf

open KeyedTables Nyse

/-- A reconstructed, unadjusted bar. -/
structure Bar where
  securityId : String
  ticker : String
  session : Int
  availableAt : Int
  open_ : ℚ
  high : ℚ
  low : ℚ
  close : ℚ
  volume : Option ℚ

/-- The row that a bar occupies. -/
def Bar.key (bar : Bar) : String × Int := (bar.ticker, bar.session)

inductive SplitOutcome where
  | trusted | trustedNoop
  deriving DecidableEq

structure Action where
  actionId : String
  securityId : String
  exDate : Int
  outcome : SplitOutcome
  newSharesPerOld : ℚ

inductive KnowledgePolicy where
  | primary | sensitivity

/-- The bars and splits of a replay: one bar for a ticker and a session, one security for
a ticker, and one action for an identifier. -/
structure Archive where
  zone : Zone
  bars : List Bar
  actions : List Action
  oneBar : (bars.map Bar.key).Nodup
  oneSecurity : ∀ bar ∈ bars, ∀ other ∈ bars, bar.ticker = other.ticker →
    bar.securityId = other.securityId
  oneAction : (actions.map Action.actionId).Nodup

section Splits

variable (archive : Archive) (policy : KnowledgePolicy)

/-- A split takes effect at the open of its ex date. -/
def splitEffectiveAt (action : Action) : Int := opened archive.zone action.exDate

def splitFixedLagAt (action : Action) : Int := opened archive.zone (nextSession action.exDate)

def splitKnownAt (action : Action) : Int :=
  match policy with
  | .primary => splitEffectiveAt archive action
  | .sensitivity => splitFixedLagAt archive action

/-- The actions of one security. -/
def actionsOf (securityId : String) : List Action :=
  archive.actions.filter fun action => action.securityId = securityId

/-- The scale of a bar: the splits after it that are effective, known and trusted. -/
def asofFactor (bar : Bar) (cutoff : Int) : ℚ :=
  (actionsOf archive bar.securityId).foldl (fun factor action =>
    if bar.session < action.exDate ∧ splitEffectiveAt archive action ≤ cutoff ∧
        splitKnownAt archive policy action ≤ cutoff ∧ action.outcome = .trusted then
      factor * action.newSharesPerOld
    else factor) 1

/-- A bar restated as of an instant. -/
structure AsofBar where
  bar : Bar
  open_ : ℚ
  high : ℚ
  low : ℚ
  close : ℚ
  volume : Option ℚ
  asofSplitFactor : ℚ
  asofActionIds : List String

/-- One action of a bar's security is applied or passed over. -/
def applySplit (bar : Bar) (cutoff : Int) (scale : ℚ × List String) (action : Action) :
    ℚ × List String :=
  if ¬ bar.session < action.exDate ∨ cutoff < splitEffectiveAt archive action then scale
  else if cutoff < splitKnownAt archive policy action then scale
  else match action.outcome with
    | .trustedNoop => scale
    | .trusted => (scale.1 * action.newSharesPerOld, scale.2 ++ [action.actionId])

/-- The whole view, computed from the archive. -/
def asofSplitAdjustedBars (asOf : Int) : List AsofBar :=
  (archive.bars.filter fun bar => bar.availableAt ≤ asOf).map fun bar =>
    let scale := (actionsOf archive bar.securityId).foldl (applySplit archive policy bar asOf)
      (1, [])
    { bar
      open_ := bar.open_ / scale.1
      high := bar.high / scale.1
      low := bar.low / scale.1
      close := bar.close / scale.1
      volume := bar.volume.map (· * scale.1)
      asofSplitFactor := scale.1
      asofActionIds := scale.2.insertionSort (· ≤ ·) }

/-- The identifiers of the trusted splits of a security that are known. -/
def knownSplitIds (cutoff : Int) (securityId : String) : List String :=
  (((actionsOf archive securityId).filter fun action =>
    action.outcome = .trusted ∧ splitKnownAt archive policy action ≤ cutoff).map
      Action.actionId).insertionSort (· ≤ ·)

end Splits

section Tables

inductive Phase where
  | preopen | open_ | close | score | postmortem
  deriving DecidableEq

/-- A row of `prices`. -/
structure PriceRow where
  open_ : ℚ
  high : Option ℚ
  low : Option ℚ
  close : Option ℚ
  volume : Option ℤ
  fetchedAt : Int

/-- The tables of a replay's prices: the rows, the known splits by which every security is
scaled, and the instant up to which bars were taken in. -/
structure Store where
  prices : Table (String × Int) PriceRow
  scaleState : Table String (String × List String)
  watermark : Option Int

def Store.empty : Store := ⟨∅, ∅, none⟩

/-- One call of the rewrite. -/
structure Call where
  asOf : Int
  phase : Phase

def priceRecord (bar : Bar) (factor : ℚ) (openOnly : Bool) (visibleAt : Int) : PriceRow where
  open_ := bar.open_ / factor
  high := if openOnly then none else some (bar.high / factor)
  low := if openOnly then none else some (bar.low / factor)
  close := if openOnly then none else some (bar.close / factor)
  volume := bar.volume.map fun volume => (volume * factor).num.tdiv (volume * factor).den
  fetchedAt := visibleAt

/-- A bar that a call writes. -/
structure Addition where
  bar : Bar
  openOnly : Bool
  visibleAt : Int

variable (archive : Archive) (policy : KnowledgePolicy)

/-- The bars in the order in which they become available. -/
def indexedBars : List Bar :=
  archive.bars.insertionSort fun first second => first.availableAt ≤ second.availableAt

/-- The securities whose known splits are no longer those they were scaled by. -/
def rewriteIds (store : Store) (cutoff : Int) : List String :=
  ((store.scaleState.entries.filter fun row =>
    row.2.2 ≠ knownSplitIds archive policy cutoff row.1).map Sigma.fst).insertionSort (· ≤ ·)

/-- The tickers under which those securities were written. -/
def rewriteTickers (store : Store) (cutoff : Int) : List String :=
  (rewriteIds archive policy store cutoff).filterMap fun securityId =>
    (store.scaleState.lookup securityId).map Prod.fst

/-- What a call writes: the securities that are scaled anew, the bars that have become
available since the watermark, and at the open the bars of the day. -/
def additions (store : Store) (call : Call) : List Addition :=
  let rewritten := rewriteIds archive policy store call.asOf
  (rewritten.flatMap fun securityId =>
    ((indexedBars archive).filter fun bar =>
      bar.securityId = securityId ∧ bar.availableAt ≤ call.asOf).map fun bar =>
        ⟨bar, false, bar.availableAt⟩) ++
  ((indexedBars archive).filter fun bar =>
    (∀ watermark ∈ store.watermark, watermark < bar.availableAt) ∧ bar.availableAt ≤ call.asOf ∧
      bar.securityId ∉ rewritten).map (fun bar => ⟨bar, false, bar.availableAt⟩) ++
  if call.phase = .open_ then
    ((indexedBars archive).filter fun bar =>
      bar.session = archive.zone.localDate call.asOf ∧ call.asOf < bar.availableAt).map fun bar =>
        ⟨bar, true, call.asOf⟩
  else []

/-- The rows of the additions replace what stands under their keys. -/
def insertRecords (cutoff : Int) (prices : Table (String × Int) PriceRow)
    (added : List Addition) : Table (String × Int) PriceRow :=
  added.foldl (fun prices addition => prices.insert addition.bar.key
    (priceRecord addition.bar (asofFactor archive policy addition.bar cutoff) addition.openOnly
      addition.visibleAt)) prices

/-- The securities that are scaled anew or written for the first time keep the splits by
which they now are scaled. -/
def updateScale (store : Store) (cutoff : Int) (added : List Addition) :
    Table String (String × List String) :=
  let fresh := added.filter fun addition =>
    (store.scaleState.lookup addition.bar.securityId).isNone
  let rescaled := mapRows (fun securityId row =>
    (row.1, if row.2 ≠ knownSplitIds archive policy cutoff securityId then
      knownSplitIds archive policy cutoff securityId else row.2)) store.scaleState
  fresh.foldl (fun scale addition => scale.insert addition.bar.securityId
    (addition.bar.ticker, knownSplitIds archive policy cutoff addition.bar.securityId)) rescaled

inductive PriceSeriesError where
  | clockRegressed

/-- Materialize one phase's visible prices incrementally. -/
def rewritePrivatePrices (store : Store) (call : Call) : Except PriceSeriesError Store :=
  if ∃ watermark ∈ store.watermark, call.asOf < watermark then .error .clockRegressed
  else
    let added := additions archive policy store call
    let tickers := rewriteTickers archive policy store call.asOf
    .ok
      { prices := insertRecords archive policy call.asOf
          (filterRows (fun key _ => key.1 ∉ tickers) store.prices) added
        scaleState := updateScale archive policy store call.asOf added
        watermark := some call.asOf }

end Tables

end TradingEngine.AsOf
