import TradingEngine.PaperPlans
import TradingEngine.RiskInputs

/-!
# Pre-trade risk decisions

A decision weighs one order against a policy and a snapshot of the account. Its gates are
evaluated in doubles, and it carries its inputs, the values that were computed, and the
hashes of all of them. A decision that was retained is verified by reading its inputs
again and evaluating them: what is computed has to be finite, and both ends of its
interval have to be in UTC.
-/

namespace TradingEngine.PreTrade

open BinaryFloats CheckedRecords
open Broker (GATE_NAMES)

def RISK_SCHEMA_VERSION : ℤ := 2

inductive GateField where
  | name | status | detail
  deriving DecidableEq

instance : Fintype GateField :=
  .ofList [.name, .status, .detail] fun field => by cases field <;> decide

inductive ComputedField where
  | notional | resultingGrossExposure | resultingSymbolExposure | availableToSell
  | reservedBuyNotional | reservedSymbolBuyNotional | reservedTurnoverNotional
  | reservedOrderCount | participation | referenceDeviationFraction | quoteAgeSeconds
  | reconciliationAgeSeconds | dailyLossFraction
  deriving DecidableEq

def ComputedField.all : List ComputedField := (List.range 13).map .ofNat

theorem ComputedField.mem_all (field : ComputedField) : field ∈ all := by
  cases field <;> decide

instance : Fintype ComputedField := .ofList _ ComputedField.mem_all

/-- What a decision is hashed from. -/
structure Body where
  schemaVersion : Atom
  status : Atom
  executionAuthority : Atom
  policySha256 : Atom
  identitySha256 : Atom
  requestSha256 : Atom
  snapshotSha256 : Atom
  evaluatedAt : Atom
  expiresAt : Atom
  policy : Option (Payload PolicyField)
  identity : Option (Payload IdentityField)
  request : Option (Payload RequestField)
  snapshot : Option (Payload SnapshotField)
  computed : Option (Payload ComputedField)
  gates : Option (List (Option (Payload GateField)))
  failedGates : Atom
  deriving BEq

/-- A decision. What should be a dictionary or a list may be something else. -/
structure Decision extends Body where
  decisionSha256 : Atom
  deriving BEq

/-- What may be given to be verified. -/
inductive Stored where
  | decision (value : Decision)
  | otherNames
  | noDictionary

/-- What is hashed as JSON. -/
inductive Document where
  | policy (payload : Payload PolicyField)
  | identity (payload : Payload IdentityField)
  | request (payload : Payload RequestField)
  | snapshot (payload : Payload SnapshotField)
  | body (body : Body)

/-- The library under the decisions: SHA-256 of canonical JSON, and texts of dates and of
times, which are read back as they were. -/
structure World where
  canonicalSha256 : Document → Except Raised String
  canonicalSha256_form : ∀ {document text}, canonicalSha256 document = .ok text →
    PaperAccounts.isSha256 text = true
  isoDate : Day → String
  strptime : String → Option Day
  strptime_isoDate : ∀ date, strptime (isoDate date) = some date
  isoTime : Wall → Option ℤ → String
  fromisoformat : String → Option Datetime
  fromisoformat_isoTime : ∀ wall, fromisoformat (isoTime wall (some 0)) = some (.utc wall)

structure Gate where
  name : String
  passed : Bool
  detail : String

def Gate.status (gate : Gate) : String := if gate.passed then "pass" else "fail"

def Gate.text (gate : Gate) : GateField → String
  | .name => gate.name
  | .status => gate.status
  | .detail => gate.detail

def Gate.payload (gate : Gate) : Payload GateField := .exact fun field => .text (gate.text field)

/-- A gate with a known name and a detail of moderate length. -/
def makeGate (name : String) (passed : Bool) (detail : String) : Except Raised Gate :=
  if !GATE_NAMES.contains name || detail.isEmpty || decide (512 < detail.length) then
    .error (.contract "risk gate is invalid")
  else .ok ⟨name, passed, detail⟩

section Evaluation

variable (world : World) (policy : RiskPolicy) (identity : RiskIdentity)
  (request : SubmitOrderRequest) (snapshot : PreTradeSnapshot)

def notional : Double := (request .quantity).mul (snapshot .referencePrice)

def signedNotional : Double :=
  if request .side == "buy" then notional request snapshot else (notional request snapshot).neg

def resultingGross : Double :=
  ((snapshot .grossExposure).add (snapshot .reservedBuyNotional)).add
    (signedNotional request snapshot)

def resultingSymbol : Double :=
  ((snapshot .symbolExposure).add (snapshot .reservedSymbolBuyNotional)).add
    (signedNotional request snapshot)

def availableToSell : Double :=
  Double.zero.maximum ((snapshot .heldQuantity).sub (snapshot .pendingSellQuantity))

def participation : Option Double :=
  (snapshot .medianDollarVolume).map (notional request snapshot).div

def referenceDeviation : Double :=
  (((snapshot .referencePrice).div (snapshot .quotePrice)).sub .one).abs

/-- The seconds between two times in UTC. -/
def secondsBetween (later earlier : Datetime) : Double :=
  .ofRat false (((later.wall : ℤ) - earlier.wall : ℚ) / 1000000)

def quoteAge : Double := secondsBetween (snapshot .observedAt) (snapshot .quoteAt)

def reconciliationAge : Double :=
  secondsBetween (snapshot .observedAt) (snapshot .reconciliationAt)

def dailyLossFraction : Double :=
  Double.zero.maximum ((snapshot .dailyPnl).neg.div (snapshot .equity))

def resultingTurnover : Double :=
  ((snapshot .dailyTurnover).add (snapshot .reservedTurnoverNotional)).add
    (notional request snapshot)

def resultingCount : ℤ := snapshot .dailyOrderCount + snapshot .reservedOrderCount + 1

def positionCeiling : Double := (policy .maxPositionFraction).mul (snapshot .equity)

/-- A double is at least zero and at most a small integer, which a double equals. -/
def agedWithin (age : Double) (limit : ℤ) : Bool :=
  Double.zero.le age && age.le (.ofRat false limit)

def identityMatches : Bool :=
  request .accountId == policy .accountId && identity .policyId == policy .policyId &&
    identity .strategyId == policy .strategyId &&
    identity .releaseSha256 == policy .releaseSha256 &&
    identity .strategyConfigSha256 == policy .strategyConfigSha256 &&
    identity .executionProfileId == policy .executionProfileId &&
    identity .executionProfileSha256 == policy .executionProfileSha256

def instrumentAllowed : Bool :=
  (policy .allowedSymbols).contains (request .symbol) &&
    ["equity", "etf"].contains (snapshot .instrumentType) && snapshot .instrumentActive &&
    snapshot .instrumentLiquid && !snapshot .instrumentQuarantined

def closeOnly : Bool :=
  (snapshot .pendingSellQuantity).le (snapshot .heldQuantity) &&
    (request .side == "buy" || (request .quantity).le (availableToSell snapshot))

/-- The gates, each with its name, whether it passes and its detail. -/
def gateRows : List (String × Bool × String) :=
  [("identity", identityMatches policy identity request,
      "all immutable policy identities must match"),
    ("account", snapshot .accountActive && !snapshot .marginEnabled &&
        snapshot .currency == "USD" && (snapshot .buyingPower).le (snapshot .cash),
      "account must be active, USD cash-only, and have no margin buying power"),
    ("instrument", instrumentAllowed policy request snapshot,
      "symbol must be allowlisted, active, liquid, and not quarantined"),
    ("order_constraints", request .orderType == "market" && request .timeInForce == "day" &&
        !request .extendedHours && closeOnly request snapshot,
      "market/day/regular-session and close-only sell constraints"),
    ("market_session", snapshot .marketSessionOpen &&
        snapshot .asOf == request .signalDate &&
        (snapshot .observedAt).wall.date == snapshot .asOf,
      "market session must be open and observed on the signal date"),
    ("dependency_health", snapshot .clockSynchronized && snapshot .storageHealthy &&
        snapshot .brokerHealthy,
      "clock, storage, and broker health must all pass"),
    ("reconciliation", snapshot .reconciled &&
        agedWithin (reconciliationAge snapshot) (policy .maxReconciliationAgeSeconds),
      "cash, positions, and open orders must be reconciled; evidence age " ++
        (reconciliationAge snapshot).fixed 3 ++ "s"),
    ("operational_control", !snapshot .operationalHalt, "durable account halt must be clear"),
    ("corporate_action", snapshot .corporateActionClear,
      "instrument must have no unresolved corporate action"),
    ("market_data", snapshot .quoteDate == snapshot .asOf &&
        (snapshot .quoteAt).wall.date == snapshot .quoteDate &&
        agedWithin (quoteAge snapshot) (policy .maxQuoteAgeSeconds) &&
        (referenceDeviation snapshot).le (policy .maxReferenceDeviationFraction),
      "quote date " ++ world.isoDate (snapshot .quoteDate) ++ ", age " ++
        (quoteAge snapshot).fixed 3 ++ "s, and reference deviation " ++
        (referenceDeviation snapshot).fixed 8),
    ("order_notional", (notional request snapshot).le (policy .maxOrderNotional),
      "notional " ++ (notional request snapshot).fixed 8 ++ " vs ceiling " ++
        (policy .maxOrderNotional).fixed 8),
    ("cash", request .side == "sell" ||
        ((snapshot .reservedBuyNotional).add (notional request snapshot)).le
          ((snapshot .cash).minimum (snapshot .buyingPower)),
      "reserved and proposed buy notional must not exceed cash or buying power"),
    ("capital_allocation", (resultingGross request snapshot).le (policy .capitalCeiling),
      "resulting gross " ++ (resultingGross request snapshot).fixed 8 ++
        " vs capital ceiling " ++ (policy .capitalCeiling).fixed 8),
    ("gross_exposure", Double.zero.le (resultingGross request snapshot) &&
        (resultingGross request snapshot).le (policy .maxGrossExposure),
      "resulting gross " ++ (resultingGross request snapshot).fixed 8 ++
        " vs exposure ceiling " ++ (policy .maxGrossExposure).fixed 8),
    ("position_concentration", Double.zero.le (resultingSymbol request snapshot) &&
        (resultingSymbol request snapshot).le (positionCeiling policy snapshot),
      "resulting symbol exposure " ++ (resultingSymbol request snapshot).fixed 8 ++
        " vs ceiling " ++ (positionCeiling policy snapshot).fixed 8),
    ("daily_turnover", (resultingTurnover request snapshot).le (policy .maxDailyTurnover),
      "resulting turnover " ++ (resultingTurnover request snapshot).fixed 8 ++
        " vs ceiling " ++ (policy .maxDailyTurnover).fixed 8),
    ("daily_order_count", decide (resultingCount snapshot ≤ policy .maxDailyOrders),
      "resulting order count " ++ toString (resultingCount snapshot) ++ " vs ceiling " ++
        toString (policy .maxDailyOrders)),
    ("liquidity_participation",
      (participation request snapshot).any (·.le (policy .maxParticipation)),
      match participation request snapshot with
      | none => "median dollar volume is unavailable"
      | some share => "participation " ++ share.fixed 8 ++ " vs ceiling " ++
          (policy .maxParticipation).fixed 8),
    ("daily_loss", (dailyLossFraction snapshot).le (policy .maxDailyLossFraction),
      "daily loss fraction " ++ (dailyLossFraction snapshot).fixed 8 ++ " vs ceiling " ++
        (policy .maxDailyLossFraction).fixed 8),
    ("drawdown", (snapshot .drawdownFraction).le (policy .maxDrawdownFraction),
      "drawdown " ++ (snapshot .drawdownFraction).fixed 8 ++ " vs ceiling " ++
        (policy .maxDrawdownFraction).fixed 8)]

def computed : ComputedField → Atom
  | .notional => .float (notional request snapshot)
  | .resultingGrossExposure => .float (resultingGross request snapshot)
  | .resultingSymbolExposure => .float (resultingSymbol request snapshot)
  | .availableToSell => .float (availableToSell snapshot)
  | .reservedBuyNotional => .float (snapshot .reservedBuyNotional)
  | .reservedSymbolBuyNotional => .float (snapshot .reservedSymbolBuyNotional)
  | .reservedTurnoverNotional => .float (snapshot .reservedTurnoverNotional)
  | .reservedOrderCount => .int (snapshot .reservedOrderCount)
  | .participation => match participation request snapshot with
    | none => .none
    | some share => .float share
  | .referenceDeviationFraction => .float (referenceDeviation snapshot)
  | .quoteAgeSeconds => .float (quoteAge snapshot)
  | .reconciliationAgeSeconds => .float (reconciliationAge snapshot)
  | .dailyLossFraction => .float (dailyLossFraction snapshot)

/-- A value in a payload: a date or a time is a text, and a tuple a list. -/
def World.json : Atom → Atom
  | .date value => .text (world.isoDate value)
  | .time value => .text (world.isoTime value.wall value.utcoffset)
  | .texts _ items => .texts false items
  | atom => atom

def World.payload {Field : Type} {Value : Field → Type} (schema : Schema Value)
    (record : ∀ field, Value field) : Payload Field :=
  .exact fun field => world.json (schema.write record field)

/-- Hashes of the inputs. -/
structure Hashes where
  policy : String
  identity : String
  request : String
  snapshot : String

def failedGates (gates : List Gate) : List String :=
  (gates.filter fun gate => gate.status == "fail").map Gate.name

/-- A decision without its hash. -/
def decisionBody (gates : List Gate) (expires : Datetime) (hashes : Hashes) : Body where
  schemaVersion := .int RISK_SCHEMA_VERSION
  status := .text (if (failedGates gates).isEmpty then "pass" else "fail")
  executionAuthority := .text "none"
  policySha256 := .text hashes.policy
  identitySha256 := .text hashes.identity
  requestSha256 := .text hashes.request
  snapshotSha256 := .text hashes.snapshot
  evaluatedAt := world.json (.time (snapshot .observedAt))
  expiresAt := world.json (.time expires)
  policy := some (world.payload policySchema policy)
  identity := some (world.payload identitySchema identity)
  request := some (world.payload requestSchema request)
  snapshot := some (world.payload snapshotSchema snapshot)
  computed := some (.exact (computed request snapshot))
  gates := some (gates.map fun gate => some gate.payload)
  failedGates := .texts false (failedGates gates)

def inputHashes : Except Raised Hashes := do
  return {
    policy := ← world.canonicalSha256 (.policy (world.payload policySchema policy))
    identity := ← world.canonicalSha256 (.identity (world.payload identitySchema identity))
    request := ← world.canonicalSha256 (.request (world.payload requestSchema request))
    snapshot := ← world.canonicalSha256 (.snapshot (world.payload snapshotSchema snapshot)) }

/-- Decide on an order. The inputs are of their classes. -/
def evaluate : Except Raised Decision := do
  let gates ← (gateRows world policy identity request snapshot).mapM fun row =>
    makeGate row.1 row.2.1 row.2.2
  if gates.map Gate.name ≠ GATE_NAMES then .error (.contract "risk gate contract changed")
  else
    let expires ← (snapshot .observedAt).plus (policy .decisionTtlSeconds)
    let hashes ← inputHashes world policy identity request snapshot
    let body := decisionBody world policy identity request snapshot gates expires hashes
    let decisionSha256 ← world.canonicalSha256 (.body body)
    return { toBody := body, decisionSha256 := .text decisionSha256 }

end Evaluation

section Verification

variable (world : World)

def validateDecisionShape : Stored → Except Raised Decision
  | .noDictionary => .error (.contract "risk decision is invalid")
  | .otherNames => .error (.contract "risk decision shape is invalid")
  | .decision retained =>
    if retained.schemaVersion == .int RISK_SCHEMA_VERSION &&
        retained.status.among ["pass", "fail"] && retained.executionAuthority == .text "none"
    then .ok retained
    else .error (.contract "risk decision shape is invalid")

def World.readTime : Atom → Except Raised Datetime
  | .text text => match world.fromisoformat text with
    | some time => .ok time
    | none => .error (.contract "risk decision validity interval is invalid")
  | _ => .error (.contract "risk decision validity interval is invalid")

def validateDecisionHashesAndInterval (retained : Decision) : Except Raised Unit := do
  discard ((sha256 "policy sha256").read retained.policySha256)
  discard ((sha256 "identity sha256").read retained.identitySha256)
  discard ((sha256 "request sha256").read retained.requestSha256)
  discard ((sha256 "snapshot sha256").read retained.snapshotSha256)
  discard ((sha256 "decision sha256").read retained.decisionSha256)
  let evaluated ← world.readTime retained.evaluatedAt
  let expires ← world.readTime retained.expiresAt
  if evaluated.utcoffset == some 0 && expires.utcoffset == some 0 &&
      decide (evaluated.wall < expires.wall) then .ok ()
  else .error (.contract "risk decision validity interval is invalid")

def validatePayload {Field : Type} (name : String) (document : Payload Field → Document)
    (hash : Atom) : Option (Payload Field) → Except Raised Unit
  | none => .error (.contract ("risk decision " ++ name ++ " is invalid"))
  | some payload => do
    let text ← world.canonicalSha256 (document payload)
    if Atom.text text == hash then .ok ()
    else .error (.contract ("risk decision " ++ name ++ " is invalid"))

def validateDecisionPayloads (retained : Decision) : Except Raised Unit := do
  validatePayload world "policy" .policy retained.policySha256 retained.policy
  validatePayload world "identity" .identity retained.identitySha256 retained.identity
  validatePayload world "request" .request retained.requestSha256 retained.request
  validatePayload world "snapshot" .snapshot retained.snapshotSha256 retained.snapshot

/-- A number that is finite as a double. -/
def validateComputedValue (field : ComputedField) : Atom → Except Raised Unit
  | .none => if field = .participation then .ok () else
      .error (.contract "risk decision computed values are invalid")
  | .float value => if value.isFinite then .ok () else
      .error (.contract "risk decision computed values are invalid")
  | .int value => if (Double.ofInt value).isSome then .ok () else .error .overflow
  | _ => .error (.contract "risk decision computed values are invalid")

def validateDecisionComputed (retained : Decision) : Except Raised Unit :=
  match retained.computed with
  | some payload =>
    if payload.isExact then
      ComputedField.all.forM fun field => validateComputedValue field (payload.entry field)
    else .error (.contract "risk decision computed values are invalid")
  | none => .error (.contract "risk decision computed values are invalid")

def validGate : Option (Payload GateField) → Bool
  | some gate => gate.isExact && (gate.entry .status).among ["pass", "fail"] &&
      match gate.entry .detail with
      | .text detail => !detail.isEmpty && decide (detail.length ≤ 512)
      | _ => false
  | none => false

def gateNames (gates : List (Option (Payload GateField))) : List Atom :=
  gates.filterMap fun gate => gate.map fun payload => payload.entry .name

def failedNames (gates : List (Option (Payload GateField))) : List Atom :=
  gates.filterMap fun gate => match gate with
    | some payload =>
      if payload.entry .status == .text "fail" then some (payload.entry .name) else none
    | none => none

/-- A list of names equals a value. -/
def namesSame (names : List Atom) : Atom → Bool
  | .texts false items => items.map Atom.text == names
  | _ => false

def validateDecisionOutcome (retained : Decision) : Except Raised Unit :=
  match retained.gates with
  | none => .error (.contract "risk decision gates are invalid")
  | some gates =>
    if gates.length ≠ GATE_NAMES.length ∨ !(GATE_NAMES.map Atom.text == gateNames gates) ∨
        !gates.all validGate then
      .error (.contract "risk decision gates are invalid")
    else if namesSame (failedNames gates) retained.failedGates &&
        retained.status == .text (if (failedNames gates).isEmpty then "pass" else "fail") then
      .ok ()
    else .error (.contract "risk decision outcome is inconsistent")

def validateDecisionHash (retained : Decision) : Except Raised Unit := do
  let text ← world.canonicalSha256 (.body retained.toBody)
  if Atom.text text == retained.decisionSha256 then .ok ()
  else .error (.contract "risk decision hash does not match")

/-- Read a text of a payload. -/
def readEntry {α : Type} (read : String → Option α) (write : α → Atom) (name : String) :
    Option Atom → Except Raised Atom
  | none => .error (.missingKey name)
  | some (.text text) => match read text with
    | some value => .ok (write value)
    | none => .error (.value "the text is invalid")
  | some _ => .error (.value "the argument must be a text")

def readDate : String → Option Atom → Except Raised Atom := readEntry world.strptime .date

def readMoment : String → Option Atom → Except Raised Atom :=
  readEntry world.fromisoformat .time

/-- The symbols of a stored policy, as a tuple. -/
def allowedSymbols : Option Atom → Except Raised Atom
  | some (.texts _ items) => .ok (.texts true items)
  | some (.items raised) => .ok (.items raised)
  | _ => .error (.contract "risk decision policy is invalid")

/-- A dictionary is required. -/
def dictionary {Field : Type} : Option (Payload Field) → Except Raised (Payload Field)
  | some payload => .ok payload
  | none => .error (.value "the value is no dictionary")

def readPolicy (stored : Payload PolicyField) : Except Raised RiskPolicy := do
  let symbols ← allowedSymbols (stored.value .allowedSymbols)
  policySchema.call (fun _ => none) { stored with value := fun
    | .allowedSymbols => some symbols
    | field => stored.value field }

def readRequest (stored : Payload RequestField) : Except Raised SubmitOrderRequest := do
  let signalDate ← readDate world "signal_date" (stored.value .signalDate)
  requestSchema.call requestDefault { stored with value := fun
    | .signalDate => some signalDate
    | field => stored.value field }

def readSnapshot (stored : Payload SnapshotField) : Except Raised PreTradeSnapshot := do
  let asOf ← readDate world "as_of" (stored.value .asOf)
  let quoteDate ← readDate world "quote_date" (stored.value .quoteDate)
  let observedAt ← readMoment world "observed_at" (stored.value .observedAt)
  let quoteAt ← readMoment world "quote_at" (stored.value .quoteAt)
  let reconciliationAt ← readMoment world "reconciliation_at" (stored.value .reconciliationAt)
  snapshotSchema.call (fun _ => none) { stored with value := fun
    | .asOf => some asOf
    | .quoteDate => some quoteDate
    | .observedAt => some observedAt
    | .quoteAt => some quoteAt
    | .reconciliationAt => some reconciliationAt
    | field => stored.value field }

structure Inputs where
  policy : RiskPolicy
  identity : RiskIdentity
  request : SubmitOrderRequest
  snapshot : PreTradeSnapshot

/-- An error of a value is one of the contract. -/
def asContract {α : Type} : Except Raised α → Except Raised α
  | .error (.value _) => .error (.contract "risk decision inputs are invalid")
  | result => result

def decisionInputs (retained : Decision) : Except Raised Inputs := asContract do
  let policy ← (dictionary retained.policy).bind readPolicy
  let identity ← (dictionary retained.identity).bind (identitySchema.call fun _ => none)
  let request ← (dictionary retained.request).bind (readRequest world)
  let snapshot ← (dictionary retained.snapshot).bind (readSnapshot world)
  return ⟨policy, identity, request, snapshot⟩

/-- Verify a decision that was retained. -/
def verify (stored : Stored) : Except Raised Decision := do
  let retained ← validateDecisionShape stored
  validateDecisionHashesAndInterval world retained
  validateDecisionPayloads world retained
  validateDecisionComputed retained
  validateDecisionOutcome retained
  validateDecisionHash world retained
  let inputs ← decisionInputs world retained
  let again ← evaluate world inputs.policy inputs.identity inputs.request inputs.snapshot
  if again == retained then .ok retained
  else .error (.contract "risk decision does not recompute")

end Verification

end TradingEngine.PreTrade
