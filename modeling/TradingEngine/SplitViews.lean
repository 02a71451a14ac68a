import TradingEngine.AsOfPrices
import TradingEngine.TicketDates

/-!
# Rebuilding and restating split-adjusted bars

A vendor divides the prices before a split by its ratio. A replay first undoes this with every
resolved split after a bar, whenever it became known, and then restates the bar by those splits
that were effective and known. A label compares an entry with an exit on one share scale, by
the splits that took effect between the two instants.

An action that is not trusted raises wherever it is relevant. Prices are exact, and a number
that is not finite has no value.
-/

namespace TradingEngine.SplitViews

open Nyse Tickets
open AsOf (KnowledgePolicy)

/-- A price or an action that may not be used, and what is said of it. -/
inductive Fault where
  | priceSeries (message : String)
  | splitQuarantine (message : String)
  | zeroDivision
  deriving DecidableEq

structure Action where
  actionId : String
  securityId : Option String
  kind : String
  exDate : Int
  stableMapping : Bool
  outcome : String
  newSharesPerOld : Option ℚ

inductive SplitOutcome where
  | quarantined | trusted | trustedNoop
  deriving DecidableEq

def trustedSplitOutcomes : List String := ["applied", "noop_restated"]
def trustedNoopSplitOutcomes : List String := ["noop_pre_history"]

namespace Action

def ratio (action : Action) : Except Fault ℚ :=
  match action.newSharesPerOld with
  | some ratio => if 0 < ratio then .ok ratio else .error (.splitQuarantine "invalid_split_ratio")
  | none => .error (.splitQuarantine "invalid_split_ratio")

def splitOutcome (action : Action) : SplitOutcome :=
  if action.kind ≠ "split" ∨ action.stableMapping ≠ true then .quarantined
  else
    match action.ratio with
    | .error _ => .quarantined
    | .ok _ =>
      if action.outcome ∈ trustedSplitOutcomes then .trusted
      else if action.outcome ∈ trustedNoopSplitOutcomes then .trustedNoop
      else .quarantined

def naturalKey (action : Action) : Option String × String × Int :=
  (action.securityId, action.kind, action.exDate)

end Action

/-- Every action has an identity and a key of its own. -/
def checkUnique (selected : List String) (naturalKeys : List (Option String × String × Int)) :
    List Action → Except Fault Unit
  | [] => .ok ()
  | action :: rest =>
    if action.actionId = "" ∨ action.actionId ∈ selected ∨ action.naturalKey ∈ naturalKeys then
      .error (.splitQuarantine "ambiguous_split_action_versions")
    else
      checkUnique (action.actionId :: selected) (action.naturalKey :: naturalKeys) rest

def uniqueActions (actions : List Action) : Except Fault (List Action) :=
  (checkUnique [] [] actions).map fun _ => actions

/-- The actions of one security. -/
def actionsOf (securityId : String) (actions : List Action) : List Action :=
  actions.filter fun action => action.securityId = some securityId

section Clocks

variable (clock : NewYork) (policy : KnowledgePolicy)

/-- A split takes effect at the open of its ex date. -/
def splitEffectiveAt (action : Action) : Int := clock.opened action.exDate

def splitFixedLagAt (action : Action) : Int := clock.opened (nextSession action.exDate)

def splitKnownAt (action : Action) : Int :=
  match policy with
  | .primary => splitEffectiveAt clock action
  | .sensitivity => splitFixedLagAt clock action

end Clocks

/-- One action is multiplied into a scale if it is relevant and trusted. -/
def applySplit (relevant : Action → Bool) (scale : ℚ × List String) (action : Action) :
    Except Fault (ℚ × List String) :=
  if relevant action then
    match action.splitOutcome with
    | .quarantined => .error (.splitQuarantine ("quarantined_split:" ++ action.actionId))
    | .trustedNoop => .ok scale
    | .trusted => action.ratio.map fun ratio => (scale.1 * ratio, scale.2 ++ [action.actionId])
  else .ok scale

/-- The scale of the relevant actions, and their identities in order. -/
def applySplits (relevant : Action → Bool) (actions : List Action) :
    Except Fault (ℚ × List String) :=
  (actions.foldlM (applySplit relevant) (1, [])).map fun scale =>
    (scale.1, scale.2.insertionSort (· ≤ ·))

/-- The scale of a session before the adjustments: all resolved splits after it. -/
def reconstructionScale (securityId : String) (session : Int) :
    List Action → Except Fault (ℚ × List String) :=
  applySplits fun action => action.securityId = some securityId ∧ session < action.exDate

inductive PriceField where
  | open_ | high | low | close
  deriving DecidableEq

inductive Series where
  | sourceBackAdjusted | reconstructedUnadjusted | asofSplitAdjusted | other
  deriving DecidableEq

structure Bar where
  securityId : String
  session : Int
  availableAt : Int
  series : Series
  prices : PriceField → ℚ
  volume : Option ℚ

structure ReconstructedBar extends Bar where
  reconstructionFactor : ℚ
  reconstructionActionIds : List String

structure AsofBar extends ReconstructedBar where
  asOf : Int
  asofSplitFactor : ℚ
  asofActionIds : List String

/-- What a view says of a session, apart from volumes and scales. -/
def Bar.priced (bar : Bar) : String × Int × (PriceField → ℚ) :=
  (bar.securityId, bar.session, bar.prices)

/-- A bar whose prices are positive. -/
def Bar.valid (bar : Bar) : Bool :=
  decide (0 < bar.prices .open_) && decide (0 < bar.prices .high) &&
    decide (0 < bar.prices .low) && decide (0 < bar.prices .close)

/-- Undo the adjustments of one bar. -/
def reconstructBar (actions : List Action) (source : Bar) : Except Fault ReconstructedBar := do
  if source.series ≠ .sourceBackAdjusted then
    .error (.priceSeries "wrong_source_price_series")
  else
    let (factor, actionIds) ← reconstructionScale source.securityId source.session
      (actionsOf source.securityId actions)
    if !source.valid then .error (.priceSeries "invalid_source_price")
    else if source.volume.any (· < 0) then .error (.priceSeries "invalid_source_volume")
    else .ok {
      source with
      series := .reconstructedUnadjusted
      prices := fun field => source.prices field * factor
      volume := source.volume.map (· / factor)
      reconstructionFactor := factor
      reconstructionActionIds := actionIds }

def reconstructUnadjustedBars (bars : List Bar) (actions : List Action) :
    Except Fault (List ReconstructedBar) := do
  let actions ← uniqueActions actions
  bars.mapM (reconstructBar actions)

/-- A reconstructed bar is on the scale that its actions give it. -/
def validateReconstructedBar (bar : ReconstructedBar) (actions : List Action) :
    Except Fault Unit := do
  if bar.series ≠ .reconstructedUnadjusted then
    .error (.priceSeries "wrong_reconstructed_price_series")
  else
    let scale ← reconstructionScale bar.securityId bar.session actions
    if scale ≠ (bar.reconstructionFactor, bar.reconstructionActionIds) then
      .error (.priceSeries "wrong_reconstructed_action_set")
    else .ok ()

section Views

variable (clock : NewYork) (policy : KnowledgePolicy)

/-- The splits by which a bar is restated: those after it, effective and known. -/
def restates (cutoff session : Int) (action : Action) : Bool :=
  session < action.exDate ∧ splitEffectiveAt clock action ≤ cutoff ∧
    splitKnownAt clock policy action ≤ cutoff

/-- A bar as of a cutoff, if it is available. -/
def asofBar (actions : List Action) (cutoff : Int) (source : ReconstructedBar) :
    Except Fault (Option AsofBar) := do
  let securityActions := actionsOf source.securityId actions
  validateReconstructedBar source securityActions
  if cutoff < source.availableAt then return none
  else
    let (factor, actionIds) ← applySplits (restates clock policy cutoff source.session)
      securityActions
    return some {
      source with
      series := .asofSplitAdjusted
      prices := fun field => source.prices field / factor
      volume := source.volume.map (· * factor)
      asOf := cutoff
      asofSplitFactor := factor
      asofActionIds := actionIds }

def asofSplitAdjustedBars (bars : List ReconstructedBar) (actions : List Action) (asOf : Int) :
    Except Fault (List AsofBar) := do
  let actions ← uniqueActions actions
  let rows ← bars.mapM (asofBar clock policy actions asOf)
  return rows.reduceOption

/-- The view of the source bars at an instant. -/
def asofView (bars : List Bar) (actions : List Action) (asOf : Int) :
    Except Fault (List AsofBar) := do
  let rebuilt ← reconstructUnadjustedBars bars actions
  asofSplitAdjustedBars clock policy rebuilt actions asOf

end Views

/-- A price that a label may use. -/
structure LabelPricePoint where
  securityId : String
  session : Int
  availableAt : Int
  priceField : PriceField
  price : ℚ
  reconstructionFactor : ℚ
  reconstructionActionIds : List String

def labelPricePoint (bar : ReconstructedBar) (field : PriceField) :
    Except Fault LabelPricePoint :=
  if bar.series ≠ .reconstructedUnadjusted ∨ field ∉ [PriceField.open_, PriceField.close] then
    .error (.priceSeries "wrong_label_price_series")
  else
    .ok ⟨bar.securityId, bar.session, bar.availableAt, field, bar.prices field,
      bar.reconstructionFactor, bar.reconstructionActionIds⟩

/-- The close of a day, early before some holidays. -/
def sessionClose (day : Int) : Int :=
  if day = ordinal (year day) 7 3 ∨ day = ordinal (year day) 12 24 ∨
      (weekday day = 4 ∧ ordinal (year day) 11 23 ≤ day ∧ day ≤ ordinal (year day) 11 29) then
    13 * hour
  else 16 * hour

structure LabelArguments where
  securityId : String
  entryPoint : LabelPricePoint
  exitPoint : LabelPricePoint
  entryAt : Int
  exitAt : Int
  visibleAt : Int
  entryCostBps : ℚ
  exitCostBps : ℚ

section Labels

variable (clock : NewYork) (policy : KnowledgePolicy)

/-- The field that belongs to an instant of a session. -/
def expectedField (session instant : Int) : Option PriceField :=
  if clock.time instant = openTime then some .open_
  else if clock.time instant = sessionClose session then some .close
  else none

/-- The price of a label's point, if the point belongs to the instant. -/
def labelPrice (name securityId : String) (visible : Int) (actions : List Action)
    (point : LabelPricePoint) (instant : Int) : Except Fault ℚ := do
  if point.securityId ≠ securityId ∨ point.session ≠ clock.date instant then
    .error (.priceSeries ("wrong_" ++ name ++ "_label_security"))
  else if expectedField clock point.session instant ≠ some point.priceField then
    .error (.priceSeries ("wrong_" ++ name ++ "_label_price_field"))
  else
    let scale ← reconstructionScale securityId point.session actions
    if scale ≠ (point.reconstructionFactor, point.reconstructionActionIds) then
      .error (.priceSeries ("wrong_" ++ name ++ "_label_action_set"))
    else if visible < point.availableAt then
      .error (.priceSeries ("unavailable_" ++ name ++ "_label_price"))
    else if point.price ≤ 0 then .error (.priceSeries "invalid_label_price")
    else .ok point.price

/-- A split that took effect between entry and exit is known and trusted. -/
def applyLabelSplit (arguments : LabelArguments) (factor : ℚ) (action : Action) :
    Except Fault ℚ :=
  if action.securityId ≠ some arguments.securityId then .ok factor
  else if ¬(arguments.entryAt < splitEffectiveAt clock action ∧
      splitEffectiveAt clock action ≤ arguments.exitAt) then .ok factor
  else if arguments.visibleAt < splitKnownAt clock policy action then
    .error (.splitQuarantine ("late_split_knowledge:" ++ action.actionId))
  else if action.splitOutcome ≠ .trusted then
    .error (.splitQuarantine ("quarantined_label_split:" ++ action.actionId))
  else action.ratio.map (factor * ·)

/-- The return of one label on a common raw share scale. -/
def labelSplitNormalizedReturn (arguments : LabelArguments) (actions : List Action) :
    Except Fault ℚ := do
  if ¬(arguments.entryAt < arguments.exitAt ∧ arguments.exitAt ≤ arguments.visibleAt) then
    .error (.priceSeries "invalid_label_clock")
  else
    let actions ← uniqueActions actions
    let entryRaw ← labelPrice clock "entry" arguments.securityId arguments.visibleAt actions
      arguments.entryPoint arguments.entryAt
    let exitRaw ← labelPrice clock "exit" arguments.securityId arguments.visibleAt actions
      arguments.exitPoint arguments.exitAt
    let factor ← actions.foldlM (applyLabelSplit clock policy arguments) 1
    let entryMultiplier := 1 + arguments.entryCostBps / 10000
    let exitMultiplier := 1 - arguments.exitCostBps / 10000
    if entryRaw * entryMultiplier = 0 then .error .zeroDivision
    else .ok (exitRaw * factor * exitMultiplier / (entryRaw * entryMultiplier) - 1)

end Labels

end TradingEngine.SplitViews
