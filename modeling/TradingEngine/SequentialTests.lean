import TradingEngine.Runs

/-!
# Sequential mixture tests

A comparison is tested on its chronological paired differences: each atom of a frozen
mixture multiplies its wealth by one plus its tilt of the difference, and the test keeps
the logarithm of the weighted total with its running maximum. A family of comparisons
is reported together; the members whose running maximum reaches the family's level are
selected, provided that every other check of theirs passed.

Floating-point numbers are modelled by real numbers, so the logarithms are exact. A
field of a row is absent when it is missing or not a finite number.
-/

namespace TradingEngine.Sequential

open Runs

abbrev Instant := Nat

inductive SequentialError where
  | value (reason : String)

noncomputable section

def ALPHA : ℝ := 5 / 100
def FAMILY_ALPHA : ℝ := 4 / 100

def ALPHA_ALLOCATION_ID : String := "p16-challengers-f1-alpha-0.04-reserve-0.01"

/-- A frozen mixture; `retained` stands for its other fields. -/
structure Mixture (Digest : Type) where
  lambdas : List ℝ
  weights : List ℝ
  retained : String
  calibrationSha256 : Digest

section Tests

variable {Digest : Type} [DecidableEq Digest]
  (canonicalSha256 : List ℝ → List ℝ → String → Digest)

/-- The atoms and weights of a mixture that is in order. The sum of the weights is
compared with one up to an absolute and a relative tolerance. -/
def mixture (frozen : Mixture Digest) : Except SequentialError (List ℝ × List ℝ) :=
  if frozen.lambdas.length ≠ frozen.weights.length ∨ frozen.lambdas = [] ∨
      (∃ tilt ∈ frozen.lambdas, tilt ≤ 0 ∨ 1 / 2 ≤ tilt) ∨ (∃ weight ∈ frozen.weights, weight ≤ 0) ∨
      ¬ |frozen.weights.sum - 1| ≤ 1 / 10 ^ 12 + 1 / 10 ^ 5 * |(1 : ℝ)| ∨
      frozen.calibrationSha256 ≠
        canonicalSha256 frozen.lambdas frozen.weights frozen.retained then
    .error (.value "invalid frozen bounded mixture")
  else .ok (frozen.lambdas, frozen.weights)

/-- What the loop over the differences carries. -/
structure TestState where
  components : List ℝ
  path : List ℝ
  maximum : ℝ
  firstCrossing : Option ℕ

/-- The logarithm of the sum of exponentials, taken relative to the largest term. -/
def logSumExp (terms : List ℝ) : ℝ :=
  let largest := terms.max?.getD 0
  largest + Real.log (terms.map fun term => Real.exp (term - largest)).sum

/-- One difference multiplies the wealth of every atom. -/
def observe (lambdas weights : List ℝ) (state : TestState) (indexed : ℝ × ℕ) : TestState :=
  let components := List.zipWith (fun component tilt =>
    component + Real.log (1 + tilt * indexed.1)) state.components lambdas
  let current := logSumExp (List.zipWith (fun weight component =>
    Real.log weight + component) weights components)
  let maximum := max state.maximum current
  { components
    path := state.path ++ [current]
    maximum
    firstCrossing :=
      if state.firstCrossing.isNone ∧ -Real.log ALPHA ≤ maximum then some indexed.2
      else state.firstCrossing }

/-- The state after a chronological prefix of differences. -/
def testState (lambdas weights differences : List ℝ) : TestState :=
  differences.zipIdx.foldl (observe lambdas weights) ⟨lambdas.map fun _ => 0, [], 0, none⟩

structure TestResult (Digest : Type) where
  alpha : ℝ
  observations : ℕ
  logE : ℝ
  maxLogE : ℝ
  logEPath : List ℝ
  componentLogWealth : List ℝ
  alwaysValidP : ℝ
  unadjustedCrossing : Bool
  firstCrossingIndex : Option ℕ
  calibrationSha256 : Digest

/-- The test of a chronological prefix of differences. -/
def mixtureTest (differences : List ℝ) (frozen : Mixture Digest) :
    Except SequentialError (TestResult Digest) :=
  (mixture canonicalSha256 frozen).bind fun (lambdas, weights) =>
  if ∃ difference ∈ differences, 2 < |difference| then
    .error (.value "paired IC differences must be finite and inside [-2,2]")
  else
    let final := testState lambdas weights differences
    .ok
      { alpha := ALPHA
        observations := differences.length
        logE := final.path.getLast?.getD 0
        maxLogE := final.maximum
        logEPath := final.path
        componentLogWealth := final.components
        alwaysValidP := min 1 (Real.exp (-final.maximum))
        unadjustedCrossing := final.firstCrossing.isSome
        firstCrossingIndex := final.firstCrossing
        calibrationSha256 := frozen.calibrationSha256 }

end Tests

section Families

inductive Method where
  | lifetimeEBonferroni | currentEBh

structure Multiple where
  selected : List Bool
  logThreshold : Option ℝ
  rejectionCount : ℕ

/-- The members that are selected at a level. Evidence that is not eligible counts as
none at all. -/
def multiple (logEvalues : List (WithBot ℝ)) (eligible : List Bool) (method : Method) (level : ℝ) :
    Except SequentialError Multiple :=
  if eligible.length ≠ logEvalues.length then .error (.value "invalid family evidence")
  else
    let screened := List.zipWith (fun value gate => if gate then value else ⊥) logEvalues eligible
    let size := logEvalues.length
    let result := match method with
      | .lifetimeEBonferroni =>
        let threshold := Real.log (size / level)
        (screened.map fun value => decide ((threshold : WithBot ℝ) ≤ value),
          if size = 0 then none else some threshold)
      | .currentEBh =>
        let order := (List.range size).insertionSort fun first second =>
          screened.getD second ⊥ ≤ screened.getD first ⊥
        let passed := order.zipIdx.filter fun (indexed : ℕ × ℕ) =>
          (Real.log (size / (level * (indexed.2 + 1))) : WithBot ℝ) ≤ screened.getD indexed.1 ⊥
        match passed.getLast? with
        | none => ((List.range size).map fun _ => false, none)
        | some last =>
          ((List.range size).map fun index => index ∈ order.take (last.2 + 1),
            some (Real.log (size / (ALPHA * (last.2 + 1)))))
    .ok ⟨result.1, result.2, result.1.count true⟩

/-- What is reported of one comparison. -/
structure FamilyRow where
  comparisonId : Option String
  reportAt : Option Instant
  originEndpoint : Option ℤ
  evidenceClass : Option String
  identityComplete : Bool
  inventoryComplete : Bool
  prefixComplete : Bool
  dsrProbability : Option ℝ
  meanNeutralIc : Option ℝ
  logE : Option ℝ
  maxLogE : Option ℝ

structure EligibilityChecks where
  prospectiveEvidence : Bool
  identityComplete : Bool
  inventoryComplete : Bool
  prefixComplete : Bool
  dsrProbabilityAtLeast095 : Bool
  meanNeutralIcPositive : Bool

def EligibilityChecks.all (checks : EligibilityChecks) : Bool :=
  checks.prospectiveEvidence && checks.identityComplete && checks.inventoryComplete &&
    checks.prefixComplete && checks.dsrProbabilityAtLeast095 && checks.meanNeutralIcPositive

def eligibilityChecks (row : FamilyRow) : EligibilityChecks where
  prospectiveEvidence := row.evidenceClass = some "prospective"
  identityComplete := row.identityComplete
  inventoryComplete := row.inventoryComplete
  prefixComplete := row.prefixComplete
  dsrProbabilityAtLeast095 := ∃ dsr ∈ row.dsrProbability, 95 / 100 ≤ dsr ∧ dsr ≤ 1
  meanNeutralIcPositive := ∃ neutral ∈ row.meanNeutralIc, 0 < neutral

structure CommonReport where
  selected : List Bool
  logThreshold : Option ℝ
  rejectionCount : ℕ
  level : ℝ
  alphaAllocationId : String
  familySize : ℕ
  comparisonIds : List String
  reportAt : Instant
  originEndpoint : ℤ
  checks : List EligibilityChecks
  eligibilityMask : List Bool
  currentLogE : List ℝ
  maxLogE : List ℝ
  descriptiveSelected : List Bool
  descriptiveLogThreshold : Option ℝ

/-- The rows in the order of the family's identifiers. -/
def orderedRows (rows : List FamilyRow) (familyIds : List String) :
    Except SequentialError (List FamilyRow) :=
  let named := rows.map FamilyRow.comparisonId
  if ¬ familyIds.Nodup then .error (.value "duplicate family ID")
  else if ¬ named.Nodup ∨ ¬ named.all (· ∈ familyIds.map some) ∨
      ¬ familyIds.all (fun id => some id ∈ named) then
    .error (.value "incomplete or duplicate registered family")
  else .ok (familyIds.filterMap fun id => rows.find? fun row => row.comparisonId = some id)

/-- An evidence field of every row. -/
def evidence (field : FamilyRow → Option ℝ) (rows : List FamilyRow) :
    Except SequentialError (List ℝ) :=
  rows.mapM fun row => match field row with
    | some value => .ok value
    | none => .error (.value "invalid current or running-maximum e-value")

/-- The lifetime test of a family and its descriptive counterpart, at one cutoff. -/
def commonReportETest (rows : List FamilyRow) (familyIds : List String) (reportAt : Option Instant)
    (originEndpoint : ℤ) (alphaAllocationId : String) (level : ℝ) :
    Except SequentialError CommonReport :=
  match reportAt with
  | none => .error (.value "sequential timestamp is invalid")
  | some reportTime =>
  if level ≠ FAMILY_ALPHA ∨ alphaAllocationId ≠ ALPHA_ALLOCATION_ID then
    .error (.value "registered family alpha allocation must be 0.04")
  else
  (orderedRows rows familyIds).bind fun ordered =>
  if ∃ row ∈ ordered, row.reportAt = none then .error (.value "sequential timestamp is invalid")
  else if ∃ row ∈ ordered, row.reportAt ≠ some reportTime then
    .error (.value "e-values must share the common report time")
  else if ∃ row ∈ ordered, row.originEndpoint ≠ some originEndpoint then
    .error (.value "e-values must share the common origin endpoint")
  else
  let checks := ordered.map eligibilityChecks
  let gate := checks.map EligibilityChecks.all
  (evidence FamilyRow.logE ordered).bind fun current =>
  (evidence FamilyRow.maxLogE ordered).bind fun maximum =>
  if ∃ pair ∈ maximum.zip current, pair.1 < max 0 pair.2 then
    .error (.value "invalid current or running-maximum e-value")
  else
  (multiple (maximum.map WithBot.some) gate .lifetimeEBonferroni level).bind
    fun lifetime =>
  (multiple (current.map WithBot.some) gate .currentEBh level).map
    fun descriptive =>
    { selected := lifetime.selected
      logThreshold := lifetime.logThreshold
      rejectionCount := lifetime.rejectionCount
      level, alphaAllocationId
      familySize := familyIds.length
      comparisonIds := familyIds
      reportAt := reportTime
      originEndpoint, checks
      eligibilityMask := gate
      currentLogE := current
      maxLogE := maximum
      descriptiveSelected := descriptive.selected
      descriptiveLogThreshold := descriptive.logThreshold }

end Families

end

end TradingEngine.Sequential
