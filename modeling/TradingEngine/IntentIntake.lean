import TradingEngine.Accounts

/-!
# Order intake

An intent is accepted at most once. Intake runs in one transaction: it loads the
account's admitted specification, answers a retained intent from the intake table,
and otherwise checks envelope, clocks, account status, contingent parent and
capacity before it writes the order, its details and the intake row. Whatever
fails, before or between the writes, rolls the tables back; only the order sequence
stays advanced.

Digests are those of a given function on specifications and intents. Valuation is
read from price and fill tables, which intake does not write.
-/

namespace TradingEngine.PaperAccounts

open KeyedTables OrderTypes Nyse Ledger Fills Accounts

/-- Instrument kinds; any other text is unknown. -/
inductive InstrumentKind where
  | stock | etf | option | future | unknown
  deriving DecidableEq

/-- Kinds with a paper fill. -/
def InstrumentKind.executable : InstrumentKind → Bool
  | .stock | .etf => true
  | .option | .future | .unknown => false

/-- A number as a payload spells it. A value that is no finite number is `other`. -/
inductive Scalar where
  | int (value : Int) | float (value : ℚ) | other
  deriving DecidableEq

/-- The value of a finite positive number. -/
def Scalar.positive? : Scalar → Option ℚ
  | .int value => if 0 < value then some value else none
  | .float value => if 0 < value then some value else none
  | .other => none

/-- One leg of a combined order. `wellKeyed` says that it has exactly its three keys. -/
structure Leg where
  wellKeyed : Bool
  instrumentId : String
  side : Option Side
  ratio : Scalar
  deriving DecidableEq

/-- A trade intent of either version; version one calls the instrument a ticker and
the session a signal date, and leaves out what stands behind the creation time. A
value that does not parse is missing. `wellKeyed` says that its keys are those of
version one, or for any other version those of version two; `canonical` is its sorted
text, which tells apart two spellings of one clock. -/
structure Intent where
  canonical : String
  schemaVersion : Int
  wellKeyed : Bool
  intentId : String
  accountId : String
  specSha256 : String
  registrationSha256 : String
  sourceSha256 : String
  instrumentKind : InstrumentKind
  instrumentId : String
  side : Option Side
  quantity : Scalar
  sessionDate : Option Int
  createdAt : Option Int
  orderType : Option OrderTypes.OrderType
  limitPrice : Option Scalar
  timeInForce : String
  contingentOn : Option String
  legs : Option (List Leg)
  deriving DecidableEq

/-- An admitted specification. Version one has one instrument kind. -/
structure Spec where
  schemaVersion : Int
  accountId : String
  strategyRef : String
  strategyVersion : String
  specSha256 : String
  artifactSha256 : String
  registrationSha256 : String
  instrumentKinds : List InstrumentKind
  capitalUsd : Int
  maxPositionFraction : ℚ
  maxGrossFraction : ℚ
  minTradeUsd : ℚ
  accountType : AccountType
  allowShort : Bool
  priceSource : PriceSource
  benchmark : String
  dayTradesPerWeekExpected : Int
  dayTradeRule : DayTradeRule
  wholeShares : Bool
  deriving DecidableEq

/-- What a digest is taken of. -/
inductive Evidence where
  | spec (spec : Spec)
  | intent (intent : Intent)
  deriving DecidableEq

/-- Why a request is refused. -/
inductive Refusal where
  | invalidIntent                       -- invalid trade intent
  | invalidVersion (version : Int)      -- invalid trade intent v1, v2
  | noSpecification                     -- account has no admitted specification
  | invalidSpecification                -- invalid account specification
  | specificationIdentity               -- account specification identity differs
  | portfolioDiffers                    -- engine portfolio differs from admitted specification
  | differentEvidence                   -- intent identifier already bound to different evidence
  | orderChanged                        -- retained intake no longer matches its engine order
  | invalidField (field : String)       -- invalid <field>
  | fieldDiffers (field : String)       -- intent <field> differs from account specification
  | unsupported                         -- unsupported execution instrument or side
  | shortNotAllowed                     -- account does not allow short sales
  | notPositive (field : String)        -- <field> must be a finite positive number
  | wholeShares                         -- account requires whole-share quantity
  | invalidClock                        -- invalid intent clock or order type
  | late                                -- intent is late, future-dated or not after the signal close
  | timeInForce                         -- time_in_force must be day
  | limitPrice                          -- limit_price is only valid for limit orders
  | legs                                -- legs must be a list
  | invalidLeg                          -- invalid multi-leg order, leg side or ratio
  | contingentOnItself                  -- an intent cannot be contingent on itself
  | stopped (status : AccountStatus)
  | notExecutable                       -- instrument_not_executable
  | staleSession                        -- intent must use the current stored signal session
  | nightlyUnfinished                   -- nightly accounting must complete before account intake
  | noPrice (ticker : Ticker)           -- no price ever observed
  | parentUnavailable                   -- contingent parent is unavailable
  | contingentSide                      -- only sell or cover may be contingent
  | parentAccount                       -- contingent parent belongs to another account
  | parentInstrument                    -- contingent parent instrument or session differs
  | parentSide                          -- contingent parent side is incompatible
  | parentNotQueued                     -- contingent parent is not queued
  | exceedsParent                       -- contingent child exceeds parent quantity
  | parentLater                         -- contingent parent executes later than child
  | pendingLeg                          -- same account already has a pending order for this leg
  | exceedsHoldings                     -- sell exceeds this account's holdings
  | exceedsShort                        -- cover exceeds this account's short position
  | constraints                         -- intent exceeds this account's constraints
  | notCanonical                        -- instrument_id is not canonical
  | duplicateKey                        -- a table refuses a second row under its key
  deriving DecidableEq

/-- What an accepted intent is answered with. -/
inductive Receipt where
  | v1 (orderId : OrderId) (replayed : Bool)
  | v2 (orderId : OrderId) (receivedAt : Int) (cutoff : Option Int)
  deriving DecidableEq

/-- A portfolio with the state that intake reads. -/
structure Portfolio (Digest : Type) where
  initialCash : ℚ
  discretionary : Bool
  configSha256 : Option Digest
  active : Bool
  cash : ℚ
  positions : List (Ticker × ℚ)

/-- Account-side settings of a portfolio. -/
structure Settings where
  engine : Engine
  accountType : AccountType
  status : Option AccountStatus
  priceSource : PriceSource
  dayTradeRule : DayTradeRule
  allowShort : Bool
  updatedAt : Int

structure SpecRow (Digest : Type) where
  payload : Spec
  sha256 : Digest

structure OrderRow where
  portfolioId : String
  ticker : Ticker
  side : Side
  qty : ℚ
  signalDate : Int
  status : CoarseStatus

structure DetailsRow where
  instrumentId : String
  instrumentKind : InstrumentKind
  orderType : OrderTypes.OrderType
  side : Side
  limitPx : Option ℚ
  sessionDate : Int
  receivedAt : Int
  createdAt : Int
  contingentOn : Option OrderId
  state : OrderState
  sourceSha256 : String

structure InstrumentRow where
  kind : InstrumentKind
  firstSeen : Int
  lastSeen : Int

structure IntakeRow (Digest : Type) where
  accountId : String
  orderId : OrderId
  payload : Intent
  sha256 : Digest
  receivedAt : Int
  receipt : Receipt
  deriving DecidableEq

/-- The tables that intake reads or writes, the order sequence and the valuation. -/
structure Store (Digest : Type) where
  specs : Table String (SpecRow Digest)
  portfolios : Table String (Portfolio Digest)
  settings : Table String Settings
  orders : Table OrderId OrderRow
  details : Table OrderId DetailsRow
  instruments : Table String InstrumentRow
  intakes : Table String (IntakeRow Digest)
  equity : Table (String × Int) EquityRow
  latestPriceDate : Option Int
  mark : String → Ticker → Int → Option ℚ
  closeOn : Ticker → Int → Option ℚ
  sequence : Nat

/-- The identifier pattern: a letter or digit, then up to 127 more characters. -/
def isIdentifier (text : String) : Bool :=
  match text.toList with
  | [] => false
  | first :: rest =>
    first.isAlphanum && decide (rest.length ≤ 127) &&
      rest.all fun letter => letter.isAlphanum || "_.:-".toList.contains letter

/-- Sixty-four lower-case hexadecimal digits. -/
def isSha256 (text : String) : Bool :=
  decide (text.toList.length = 64) && text.toList.all fun letter =>
    "0123456789abcdef".toList.contains letter

/-- Refuse unless a condition holds. -/
def require (condition : Bool) (refusal : Refusal) : Except Refusal Unit :=
  if condition then .ok () else .error refusal

/-- Position, gross and minimum must be feasible together. -/
def validLimits (spec : Spec) (grossCeiling : ℚ) : Bool :=
  decide (0 < spec.maxPositionFraction) && decide (0 < spec.maxGrossFraction) &&
    decide (0 < spec.minTradeUsd) && decide (spec.maxPositionFraction ≤ spec.maxGrossFraction) &&
    decide (spec.maxGrossFraction ≤ grossCeiling) &&
    decide (spec.minTradeUsd ≤ spec.capitalUsd * spec.maxPositionFraction)

/-- Independent capital tiers. -/
def capitalTiers : List Int := [10000, 50000, 100000]

/-- An exact specification of either version. -/
def validateSpec (spec : Spec) : Bool :=
  isIdentifier spec.strategyRef && isIdentifier spec.accountId && isSha256 spec.specSha256 &&
    isSha256 spec.registrationSha256 && capitalTiers.contains spec.capitalUsd &&
    if spec.schemaVersion = 1 then
      decide (spec.instrumentKinds.length = 1) &&
        spec.instrumentKinds.all InstrumentKind.executable && validLimits spec 1
    else
      decide (spec.schemaVersion = 2) && isIdentifier spec.strategyVersion &&
        isSha256 spec.artifactSha256 && !spec.instrumentKinds.isEmpty &&
        !spec.instrumentKinds.contains .unknown && decide spec.instrumentKinds.Nodup &&
        decide (spec.accountType = .margin) && decide (spec.benchmark = "SPY") &&
        decide (0 ≤ spec.dayTradesPerWeekExpected) && validLimits spec (3 / 2)

section Intake

variable {Digest : Type} [DecidableEq Digest] (sha256 : Evidence → Digest)

/-- Effective status: that of the settings, else whether the portfolio is active. -/
def portfolioStatus (store : Store Digest) (accountId : String) : AccountStatus :=
  ((store.settings.lookup accountId).bind Settings.status).getD
    (if (store.portfolios.lookup accountId).any Portfolio.active then .active else .inactive)

/-- The admitted specification of an account, checked against its portfolio. -/
def loadSpec (store : Store Digest) (accountId : String) : Except Refusal Spec :=
  match store.specs.lookup accountId with
  | none => .error .noSpecification
  | some row => do
    let spec := row.payload
    require (validateSpec spec) .invalidSpecification
    require (decide (sha256 (.spec spec) = row.sha256) && decide (spec.accountId = accountId))
      .specificationIdentity
    require ((store.portfolios.lookup accountId).any fun portfolio =>
      decide (portfolio.initialCash = (spec.capitalUsd : ℚ)) && portfolio.discretionary &&
        decide (portfolio.configSha256 = some row.sha256)) .portfolioDiffers
    require (decide (spec.schemaVersion ≠ 2) ||
      (store.settings.lookup accountId).any fun settings =>
        decide (settings.engine = .account) && decide (settings.accountType = spec.accountType) &&
          decide (settings.priceSource = spec.priceSource) &&
          decide (settings.dayTradeRule = spec.dayTradeRule) &&
          decide (settings.allowShort = spec.allowShort)) .portfolioDiffers
    .ok spec

/-- Envelope and clocks of a version-one intent: its session and quantity. -/
def validateV1Intent (zone : Zone) (intent : Intent) (spec : Spec) (now : Int) :
    Except Refusal (Int × ℚ) := do
  require intent.wellKeyed (.invalidVersion 1)
  require (isIdentifier intent.intentId) (.invalidField "intent_id")
  require (isIdentifier intent.accountId) (.invalidField "account_id")
  require (isIdentifier intent.instrumentId) (.invalidField "ticker")
  require (isSha256 intent.sourceSha256) (.invalidField "source_sha256")
  require (decide (intent.accountId = spec.accountId)) (.fieldDiffers "account_id")
  require (decide (intent.specSha256 = spec.specSha256)) (.fieldDiffers "spec_sha256")
  require (decide (intent.registrationSha256 = spec.registrationSha256))
    (.fieldDiffers "registration_sha256")
  require (decide (spec.instrumentKinds = [intent.instrumentKind])) (.fieldDiffers "instrument_kind")
  require (intent.instrumentKind.executable &&
    (decide (intent.side = some .buy) || decide (intent.side = some .sell))) .unsupported
  match intent.quantity.positive?, intent.sessionDate, intent.createdAt with
  | none, _, _ => .error (.notPositive "quantity")
  | some quantity, some signalDate, some created =>
    require (isSession signalDate && decide (closed zone signalDate ≤ created) &&
      decide (created ≤ now) && decide (now < opened zone (nextSession signalDate))) .late
    .ok (signalDate, quantity)
  | some _, _, _ => .error .invalidClock

/-- A leg is a keyed, sided, non-zero whole ratio of an instrument. -/
def validateLeg (leg : Leg) : Bool :=
  leg.wellKeyed && isIdentifier leg.instrumentId && leg.side.isSome &&
    match leg.ratio with
    | .int ratio => decide (ratio ≠ 0)
    | .float _ | .other => false

/-- Envelope and clocks of a version-two intent: its session and quantity. -/
def validateV2Intent (zone : Zone) (intent : Intent) (spec : Spec) (receivedAt : Int) :
    Except Refusal (Int × ℚ) := do
  require intent.wellKeyed (.invalidVersion 2)
  require (isIdentifier intent.intentId) (.invalidField "intent_id")
  require (isIdentifier intent.accountId) (.invalidField "account_id")
  require (isIdentifier intent.instrumentId) (.invalidField "instrument_id")
  require (isSha256 intent.sourceSha256) (.invalidField "source_sha256")
  require (isSha256 intent.specSha256) (.invalidField "spec_sha256")
  require (isSha256 intent.registrationSha256) (.invalidField "registration_sha256")
  require (decide (intent.accountId = spec.accountId)) (.fieldDiffers "account_id")
  require (decide (intent.specSha256 = spec.specSha256)) (.fieldDiffers "spec_sha256")
  require (decide (intent.registrationSha256 = spec.registrationSha256))
    (.fieldDiffers "registration_sha256")
  require (spec.instrumentKinds.contains intent.instrumentKind) (.fieldDiffers "instrument_kind")
  require intent.side.isSome .unsupported
  require (decide (intent.side ≠ some .short) || spec.allowShort) .shortNotAllowed
  match intent.quantity.positive? with
  | none => .error (.notPositive "quantity")
  | some quantity =>
    require (!spec.wholeShares || decide (quantity.den = 1)) .wholeShares
    match intent.sessionDate, intent.createdAt, intent.orderType with
    | some sessionDate, some _, some orderType =>
      require (receivedAtAllowed zone orderType sessionDate receivedAt) .invalidClock
      require (decide (intent.timeInForce = "day")) .timeInForce
      require (decide (orderType ≠ .limit) || intent.limitPrice.any fun price =>
        price.positive?.isSome) (.notPositive "limit_price")
      require (decide (orderType = .limit) || intent.limitPrice.isNone) .limitPrice
      match intent.legs with
      | none => .error .legs
      | some legs =>
        require (legs.all validateLeg) .invalidLeg
        require (intent.contingentOn.all isIdentifier) (.invalidField "contingent_on")
        require (decide (intent.contingentOn ≠ some intent.intentId)) .contingentOnItself
        .ok (sessionDate, quantity)
    | _, _, _ => .error .invalidClock

/-- Pure envelope and clock admission. -/
def validateIntent (zone : Zone) (intent : Intent) (spec : Spec) (now : Int) :
    Except Refusal (Int × ℚ) := do
  require (validateSpec spec) .invalidSpecification
  require (decide (intent.schemaVersion = spec.schemaVersion)) .invalidIntent
  if spec.schemaVersion = 1 then validateV1Intent zone intent spec now
  else validateV2Intent zone intent spec now

/-- The session whose close prices an intent. -/
def referenceDate (spec : Spec) (intent : Intent) (sessionDate : Int) : Int :=
  if spec.schemaVersion = 1 ∨ intent.orderType = some .nextOpen then sessionDate
  else previousSession sessionDate

/-- Carry a price or refuse. -/
def valuation (store : Store Digest) (accountId : String) (ticker : Ticker) (day : Int) :
    Except Refusal ℚ :=
  match store.mark accountId ticker day with
  | some price => .ok price
  | none => .error (.noPrice ticker)

/-- Whether a parent executes no later than its child. -/
def precedes (parent child : OrderTypes.OrderType) : Bool :=
  match executionPhase parent, executionPhase child with
  | some parentPhase, some childPhase =>
    decide (parentPhase ≤ childPhase) && !(decide (parent = .limit) && decide (child = .market))
  | _, _ => false
where
  /-- When within a session an order type executes. -/
  executionPhase : OrderTypes.OrderType → Option Nat
    | .moo => some 0
    | .market | .limit => some 1
    | .moc => some 2
    | .nextOpen => some 3
    | .limitOnOpen => none

/-- The order that a contingent intent waits for. -/
def contingentParent (store : Store Digest) (intent : Intent) (sessionDate : Int) (quantity : ℚ) :
    Except Refusal (Option OrderId) :=
  match intent.contingentOn with
  | none => .ok none
  | some parentIntent =>
    match (store.intakes.lookup parentIntent).bind fun intake =>
        (store.orders.lookup intake.orderId).map fun order => (intake, order) with
    | none => .error .parentUnavailable
    | some (intake, order) => do
      let details := store.details.lookup intake.orderId
      require (decide (intent.side = some .sell) || decide (intent.side = some .cover))
        .contingentSide
      require (decide (intake.accountId = intent.accountId)) .parentAccount
      require (decide (order.ticker = intent.instrumentId) &&
        decide (order.signalDate = sessionDate)) .parentInstrument
      require (decide (order.side = if intent.side = some .sell then .buy else .short)) .parentSide
      require (decide (order.status = .pending) && details.any fun row =>
        decide (row.state = .queued)) .parentNotQueued
      require (decide (quantity ≤ order.qty)) .exceedsParent
      require (details.any fun row => intent.orderType.any fun child =>
        precedes row.orderType child) .parentLater
      .ok (some intake.orderId)

/-- Holdings, duplicate legs and the specification's limits at the last close. -/
def capacity (store : Store Digest) (spec : Spec) (intent : Intent) (sessionDate : Int)
    (side : Side) (quantity : ℚ) (parent : Option OrderId) : Except Refusal Unit := do
  let day := referenceDate spec intent sessionDate
  let price ← valuation store spec.accountId intent.instrumentId day
  let positions := ((store.portfolios.lookup spec.accountId).map Portfolio.positions).getD []
  let pending := (store.orders.entries.map Sigma.snd).filter fun order =>
    decide (order.portfolioId = spec.accountId) && decide (order.status = .pending)
  require (!pending.any fun order =>
    decide (order.ticker = intent.instrumentId) && decide (order.side = side)) .pendingLeg
  let held := (positions.lookup intent.instrumentId).getD 0
  if parent.isSome then .ok ()
  else
    match side with
    | .sell => require (decide (quantity ≤ max held 0)) .exceedsHoldings
    | .cover => require (decide (quantity ≤ max (-held) 0)) .exceedsShort
    | .buy | .short => do
      let requested := quantity * price
      let values ← positions.mapM fun row =>
        (valuation store spec.accountId row.1 day).map fun px => (row.1, row.2 * px)
      let reserved ← (pending.filter fun order => !order.side.closing).mapM fun order =>
        (valuation store spec.accountId order.ticker day).map fun px =>
          (order.ticker, |order.qty * px|)
      let cash := ((store.portfolios.lookup spec.accountId).map Portfolio.cash).getD 0
      let equity := cash + (values.map Prod.snd).sum
      let held := (reserved.map Prod.snd).sum
      let gross := (values.map fun row => |row.2|).sum + held + requested
      let position := |(values.lookup intent.instrumentId).getD 0| +
        ((reserved.filter fun row => row.1 = intent.instrumentId).map Prod.snd).sum + requested
      require (decide (spec.minTradeUsd ≤ requested) &&
        (decide (spec.schemaVersion ≠ 1) || decide (requested + held ≤ cash)) &&
        decide (gross ≤ equity * spec.maxGrossFraction) &&
        decide (position ≤ equity * spec.maxPositionFraction)) .constraints

/-- Whether a completed nightly must be joined by the new account's mark. -/
def activationCheckpoint (store : Store Digest) (signalDate : Int) : Except Refusal Bool := do
  if store.equity.entries.isEmpty then .ok false
  else
    require (store.portfolios.entries.all fun row =>
      !row.2.active || (store.equity.lookup (row.1, signalDate)).isSome) .nightlyUnfinished
    .ok (store.equity.entries.any fun row => decide (row.1.2 = signalDate))

/-- A retained intake must still describe its engine order. -/
def matchesOrder (store : Store Digest) (orderId : OrderId) (intent : Intent) : Bool :=
  (store.orders.lookup orderId).any fun order =>
    decide (order.portfolioId = intent.accountId) && decide (order.ticker = intent.instrumentId) &&
      decide (some order.side = intent.side) && decide (some order.qty = intent.quantity.positive?) &&
      decide (some order.signalDate = intent.sessionDate)

/-- The answer to a repeated intent. -/
def replay (store : Store Digest) (spec : Spec) (previous : IntakeRow Digest) (intent : Intent) :
    Except Refusal Receipt := do
  require (decide (previous.accountId = intent.accountId) &&
    decide (previous.sha256 = sha256 (.intent intent)) &&
    decide (sha256 (.intent previous.payload) = sha256 (.intent intent))) .differentEvidence
  require (matchesOrder store previous.orderId intent) .orderChanged
  .ok (if spec.schemaVersion = 1 then .v1 previous.orderId true else previous.receipt)

/-- What the checks before the first write settle. -/
structure Admission where
  sessionDate : Int
  quantity : ℚ
  side : Side
  parent : Option OrderId
  checkpoint : Bool

/-- Every check that precedes the first write. -/
def admitIntent (zone : Zone) (store : Store Digest) (spec : Spec) (intent : Intent) (now : Int) :
    Except Refusal Admission := do
  let (sessionDate, quantity) ← validateIntent zone intent spec now
  let status := portfolioStatus store spec.accountId
  require (decide (status = .inactive) || decide (status = .active)) (.stopped status)
  require (decide (spec.schemaVersion ≠ 2) || (intent.instrumentKind.executable &&
    decide (intent.legs = some []))) .notExecutable
  let checkpoint ←
    if spec.schemaVersion = 1 then do
      require (decide (store.latestPriceDate = some sessionDate)) .staleSession
      activationCheckpoint store sessionDate
    else do
      let _ ← valuation store spec.accountId intent.instrumentId
        (referenceDate spec intent sessionDate)
      .ok false
  let parent ← if spec.schemaVersion = 2 then contingentParent store intent sessionDate quantity
    else .ok none
  match intent.side with
  | none => .error .unsupported
  | some side => do
    capacity store spec intent sessionDate side quantity parent
    .ok ⟨sessionDate, quantity, side, parent, checkpoint⟩

/-- A never-reused number from the sequence, above every number in the order table. -/
def nextOrderId (store : Store Digest) : OrderId :=
  max (store.sequence + 1) (store.orders.keys.foldr max 0 + 1)

/-- Whether an upper-case symbol is a compact option symbol: root, expiry, right, strike. -/
def isOptionSymbol (symbol : List Char) : Bool :=
  let root := symbol.take (symbol.length - 15)
  let suffix := symbol.drop (symbol.length - 15)
  decide (16 ≤ symbol.length) && decide (symbol.length ≤ 21) &&
    root.all (fun letter => letter.isUpper || letter.isDigit || letter == '.') &&
    (suffix.take 6).all Char.isDigit && "CP".toList.contains (suffix.getD 6 ' ') &&
    (suffix.drop 7).all Char.isDigit

/-- Upper-case option symbols and leave other identifiers, which have no padding, alone. -/
def normalise (instrumentId : String) : String :=
  let upper := instrumentId.toList.map Char.toUpper
  if isOptionSymbol upper then String.ofList upper else instrumentId

/-- Insert or refresh one canonical instrument row. -/
def ensure (store : Store Digest) (instrumentId : String) (kind : InstrumentKind) (session : Int) :
    Except Refusal (Store Digest) :=
  if normalise instrumentId ≠ instrumentId then .error .notCanonical
  else
    let firstSeen := ((store.instruments.lookup instrumentId).map InstrumentRow.firstSeen).getD session
    .ok { store with
      instruments := store.instruments.insert instrumentId ⟨kind, firstSeen, session⟩ }

/-- The inclusive exchange cutoff, if the order type has one. -/
def cutoffAt (zone : Zone) (orderType : OrderTypes.OrderType) (session : Int) : Option Int :=
  match orderType with
  | .moo | .limitOnOpen => some (mooCutoff zone session)
  | .moc => some (mocCutoff zone session)
  | .nextOpen | .market | .limit => none

/-- Value a portfolio at a close; an unpriced holding contributes nothing. -/
def markToMarket (store : Store Digest) (accountId : String) (day : Int) : Store Digest :=
  match store.portfolios.lookup accountId with
  | none => store
  | some portfolio =>
    let value := (portfolio.positions.map fun row =>
      row.2 * (store.closeOn row.1 day).getD 0).sum
    { store with
      equity := store.equity.insert (accountId, day)
        ⟨portfolio.cash + value, portfolio.cash, portfolio.positions.length⟩ }

/-- Activate the account of an accepted intent. -/
def activate (store : Store Digest) (accountId : String) (now : Int) : Store Digest :=
  let settings := ((store.settings.lookup accountId).map fun row =>
    { row with status := some .active, updatedAt := now }).getD
      ⟨.league, .cashLegacy, some .active, .prices, .pdt25kLegacy, false, now⟩
  { store with
    portfolios := mapRows (fun id portfolio =>
      if id = accountId then { portfolio with active := true } else portfolio) store.portfolios
    settings := store.settings.insert accountId settings }

/-- Record an intake under its intent and its order, and activate the account. -/
def recordIntake (store : Store Digest) (intent : Intent) (now : Int) (admission : Admission)
    (orderId : OrderId) (receipt : Receipt) : Except Refusal Receipt × Store Digest :=
  if (store.intakes.lookup intent.intentId).isSome ∨
      (store.intakes.entries.any fun row => decide (row.2.orderId = orderId)) = true then
    (.error .duplicateKey, store)
  else
    let recorded := { store with
      intakes := store.intakes.insert intent.intentId
        ⟨intent.accountId, orderId, intent, sha256 (.intent intent), now, receipt⟩ }
    let active := activate recorded intent.accountId now
    (.ok receipt, if admission.checkpoint then
      markToMarket active intent.accountId admission.sessionDate else active)

/-- Write the order of an admitted intent, its details and its intake. -/
def persist (zone : Zone) (store : Store Digest) (spec : Spec) (intent : Intent) (now : Int)
    (admission : Admission) : Except Refusal Receipt × Store Digest :=
  let orderId := nextOrderId store
  let ordered := { store with
    sequence := orderId
    orders := store.orders.insert orderId
      ⟨intent.accountId, intent.instrumentId, admission.side, admission.quantity,
        admission.sessionDate, .pending⟩ }
  if spec.schemaVersion = 2 then
    match ensure ordered intent.instrumentId intent.instrumentKind admission.sessionDate,
        intent.orderType, intent.createdAt with
    | .error refusal, _, _ => (.error refusal, ordered)
    | .ok known, some orderType, some created =>
      if (known.details.lookup orderId).isSome then (.error .duplicateKey, known)
      else
        let detailed := { known with
          details := known.details.insert orderId
            ⟨intent.instrumentId, intent.instrumentKind, orderType, admission.side,
              intent.limitPrice.bind Scalar.positive?, admission.sessionDate, now, created,
              admission.parent, .queued, intent.sourceSha256⟩ }
        recordIntake sha256 detailed intent now admission orderId
          (.v2 orderId now (cutoffAt zone orderType admission.sessionDate))
    | .ok known, _, _ => (.error .invalidClock, known)
  else recordIntake sha256 ordered intent now admission orderId (.v1 orderId false)

/-- The body of the intake transaction. -/
def intake (zone : Zone) (intent : Intent) (now : Int) (store : Store Digest) :
    Except Refusal Receipt × Store Digest :=
  match loadSpec sha256 store intent.accountId with
  | .error refusal => (.error refusal, store)
  | .ok spec =>
    match store.intakes.lookup intent.intentId with
    | some previous => (replay sha256 store spec previous intent, store)
    | none =>
      match admitIntent zone store spec intent now with
      | .error refusal => (.error refusal, store)
      | .ok admission => persist sha256 zone store spec intent now admission

/-- Commit a body that succeeds; roll the tables back when it raises. The sequence is no
table and keeps what was drawn from it. -/
def transaction {α : Type} (body : Store Digest → Except Refusal α × Store Digest)
    (store : Store Digest) : Except Refusal α × Store Digest :=
  match body store with
  | (.ok value, after) => (.ok value, after)
  | (.error refusal, after) => (.error refusal, { store with sequence := after.sequence })

/-- Persist one accepted intent. A payload that is no dictionary or has no integer
version is missing. -/
def submitIntent (zone : Zone) (payload : Option Intent) (now : Int) (store : Store Digest) :
    Except Refusal Receipt × Store Digest :=
  match payload with
  | none => (.error .invalidIntent, store)
  | some intent =>
    if intent.wellKeyed then transaction (intake sha256 zone intent now) store
    else (.error (.invalidVersion intent.schemaVersion), store)

/-- Only the sequence differs. -/
def SameTables (before after : Store Digest) : Prop :=
  after = { before with sequence := after.sequence }

omit [DecidableEq Digest] in
theorem transaction_refused {α : Type} {body : Store Digest → Except Refusal α × Store Digest}
    {store after : Store Digest} {refusal : Refusal}
    (refused : transaction body store = (.error refusal, after)) : SameTables store after := by
  unfold transaction at refused
  split at refused
  · cases refused
  · cases refused
    rfl

variable {now : Int}

theorem submitIntent_refused {zone : Zone} {payload : Option Intent}
    {store after : Store Digest} {refusal : Refusal}
    (refused : submitIntent sha256 zone payload now store = (.error refusal, after)) :
    SameTables store after := by
  unfold submitIntent at refused
  split at refused
  · cases refused
    rfl
  · split at refused
    · exact transaction_refused refused
    · cases refused
      rfl

/-- What an accepted intent leaves: one new order and its intake. -/
structure Accepted (store : Store Digest) (intent : Intent) (now : Int) (receipt : Receipt)
    (after : Store Digest) : Prop where
  fresh : store.intakes.lookup intent.intentId = none
  intakes : after.intakes = store.intakes.insert intent.intentId
    ⟨intent.accountId, nextOrderId store, intent, sha256 (.intent intent), now, receipt⟩
  orders : ∃ order, after.orders = store.orders.insert (nextOrderId store) order

omit [DecidableEq Digest] in
omit [DecidableEq Digest] in
theorem markToMarket_intakes (store : Store Digest) (accountId : String) (day : Int) :
    (markToMarket store accountId day).intakes = store.intakes ∧
      (markToMarket store accountId day).orders = store.orders := by
  unfold markToMarket
  split
  · exact ⟨rfl, rfl⟩
  · exact ⟨rfl, rfl⟩

omit [DecidableEq Digest] in
theorem ensure_ok {store known : Store Digest} {instrumentId : String} {kind : InstrumentKind}
    {session : Int} (ensured : ensure store instrumentId kind session = .ok known) :
    known = { store with instruments := known.instruments } := by
  unfold ensure at ensured
  split at ensured
  · cases ensured
  · cases ensured
    rfl

variable {receipt : Receipt}

omit [DecidableEq Digest] in
/-- A recorded intake adds its row and touches no order. -/
theorem recordIntake_ok {store after : Store Digest} {intent : Intent}
    {admission : Admission} {orderId : OrderId} {answered : Receipt}
    (recorded : recordIntake sha256 store intent now admission orderId receipt =
      (.ok answered, after)) :
    answered = receipt ∧ store.intakes.lookup intent.intentId = none ∧
      after.intakes = store.intakes.insert intent.intentId
        ⟨intent.accountId, orderId, intent, sha256 (.intent intent), now, receipt⟩ ∧
      after.orders = store.orders := by
  unfold recordIntake at recorded
  split at recorded
  · cases recorded
  · rename_i unrecorded
    have fresh : store.intakes.lookup intent.intentId = none := by
      simpa using (not_or.mp unrecorded).1
    cases recorded
    refine ⟨rfl, fresh, ?_, ?_⟩
    · split
      · exact (markToMarket_intakes _ _ _).1
      · rfl
    · split
      · exact (markToMarket_intakes _ _ _).2
      · rfl

omit [DecidableEq Digest] in
/-- Writes that succeed accept the intent. -/
theorem persist_ok {zone : Zone} {store after : Store Digest} {spec : Spec} {intent : Intent}
    {admission : Admission}
    (persisted : persist sha256 zone store spec intent now admission = (.ok receipt, after)) :
    Accepted sha256 store intent now receipt after := by
  unfold persist at persisted
  dsimp only at persisted
  split at persisted
  · split at persisted
    · cases persisted
    · rename_i known orderType created ensured _ _
      split at persisted
      · cases persisted
      · obtain ⟨rfl, fresh, intakes, orders⟩ := recordIntake_ok sha256 persisted
        have kept := ensure_ok ensured
        dsimp only at fresh intakes orders
        rw [kept] at fresh intakes orders
        exact ⟨fresh, intakes, _, orders⟩
    · cases persisted
  · obtain ⟨rfl, fresh, intakes, orders⟩ := recordIntake_ok sha256 persisted
    exact ⟨fresh, intakes, _, orders⟩

/-- A successful call answers from a retained intake or accepts the intent. -/
theorem submitIntent_ok {zone : Zone} {intent : Intent} {store after : Store Digest}
    (submitted : submitIntent sha256 zone (some intent) now store = (.ok receipt, after)) :
    (after = store ∧ (store.intakes.lookup intent.intentId).isSome) ∨
      Accepted sha256 store intent now receipt after := by
  unfold submitIntent at submitted
  dsimp only at submitted
  split at submitted
  · unfold transaction at submitted
    split at submitted
    · rename_i value reached ran
      cases submitted
      unfold intake at ran
      split at ran
      · cases ran
      · split at ran
        · rename_i previous found
          obtain ⟨-, rfl⟩ := Prod.mk.inj ran
          exact .inl ⟨rfl, by simp [found]⟩
        · split at ran
          · cases ran
          · exact .inr (persist_ok sha256 ran)
    · cases submitted
  · cases submitted

omit [DecidableEq Digest] in
/-- A drawn number is in no row. -/
theorem nextOrderId_unlisted (store : Store Digest) :
    nextOrderId store ∉ store.orders.keys := by
  intro listed
  have bounded : nextOrderId store ≤ store.orders.keys.foldr max 0 := le_foldr_max listed
  have above : store.orders.keys.foldr max 0 + 1 ≤ nextOrderId store := le_max_right _ _
  exact absurd (above.trans bounded) (Nat.not_succ_le_self _)

/-- One writer's turn: a submission, or a writer that leaves the intake table alone. -/
inductive Call (Digest : Type) where
  | submit (payload : Option Intent) (now : Int)
  | other (change : Store Digest → Store Digest)
      (keeps : ∀ store, (change store).intakes = store.intakes)

/-- The store after one turn. -/
def Call.step (zone : Zone) (store : Store Digest) : Call Digest → Store Digest
  | .submit payload now => (submitIntent sha256 zone payload now store).2
  | .other change _ => change store

/-- The store after every turn. -/
def run (zone : Zone) (store : Store Digest) (calls : List (Call Digest)) : Store Digest :=
  calls.foldl (Call.step sha256 zone) store

/-- The orders that a submission adds, each with its intent. -/
def Call.placed (zone : Zone) (store : Store Digest) : Call Digest → List (String × OrderId)
  | .submit (some intent) now =>
    ((submitIntent sha256 zone (some intent) now store).2.orders.keys.filter fun id =>
      id ∉ store.orders.keys).map fun id => (intent.intentId, id)
  | .submit none _ | .other _ _ => []

/-- The orders that the submissions of a run add, each with its intent. -/
def placements (zone : Zone) : Store Digest → List (Call Digest) → List (String × OrderId)
  | _, [] => []
  | store, call :: rest =>
    call.placed sha256 zone store ++ placements zone (call.step sha256 zone store) rest

/-- Every intake row is the record of an intent that was accepted under its identifier. -/
def Store.Coherent (store : Store Digest) : Prop :=
  ∀ intentId row, store.intakes.lookup intentId = some row →
    row.payload.intentId = intentId ∧ row.accountId = row.payload.accountId ∧
      row.sha256 = sha256 (.intent row.payload) ∧ row.payload.wellKeyed = true

/-- What a submission can do: leave the tables alone, or accept a well-keyed intent. -/
theorem submitIntent_cases (zone : Zone) (payload : Option Intent) (now : Int)
    (store : Store Digest) :
    SameTables store (submitIntent sha256 zone payload now store).2 ∨
      ∃ intent receipt, payload = some intent ∧ intent.wellKeyed = true ∧
        Accepted sha256 store intent now receipt (submitIntent sha256 zone payload now store).2 := by
  match submitted : submitIntent sha256 zone payload now store with
  | (.error refusal, after) => exact .inl (submitIntent_refused sha256 submitted)
  | (.ok receipt, after) =>
    cases payload with
    | none => cases submitted
    | some intent =>
      have keyed : intent.wellKeyed = true := by
        by_contra unkeyed
        simp [submitIntent, unkeyed] at submitted
      obtain ⟨rfl, -⟩ | accepted := submitIntent_ok sha256 submitted
      · exact .inl rfl
      · exact .inr ⟨intent, receipt, rfl, keyed, accepted⟩

/-- A turn forgets no intake. -/
theorem step_lookup {zone : Zone} {store : Store Digest} {call : Call Digest} {intentId : String}
    (fresh : (call.step sha256 zone store).intakes.lookup intentId = none) :
    store.intakes.lookup intentId = none := by
  cases call with
  | other change keeps => rwa [Call.step, keeps] at fresh
  | submit payload now =>
    obtain same | ⟨intent, receipt, -, -, accepted⟩ :=
      submitIntent_cases sha256 zone payload now store
    · rwa [Call.step, same] at fresh
    · rw [Call.step, accepted.intakes] at fresh
      by_cases own : intentId = intent.intentId
      · rw [own]
        exact accepted.fresh
      · rwa [AList.lookup_insert_ne own] at fresh

/-- A turn keeps the intake table coherent. -/
theorem step_coherent {zone : Zone} {store : Store Digest} (call : Call Digest)
    (coherent : store.Coherent sha256) : (call.step sha256 zone store).Coherent sha256 := by
  cases call with
  | other change keeps =>
    intro intentId row found
    rw [Call.step, keeps] at found
    exact coherent intentId row found
  | submit payload now =>
    intro intentId row found
    obtain same | ⟨intent, receipt, -, keyed, accepted⟩ :=
      submitIntent_cases sha256 zone payload now store
    · rw [Call.step, same] at found
      exact coherent intentId row found
    · rw [Call.step, accepted.intakes] at found
      by_cases own : intentId = intent.intentId
      · subst own
        rw [AList.lookup_insert] at found
        cases found
        exact ⟨rfl, rfl, rfl, keyed⟩
      · rw [AList.lookup_insert_ne own] at found
        exact coherent intentId row found

theorem run_coherent {zone : Zone} (calls : List (Call Digest)) {store : Store Digest}
    (coherent : store.Coherent sha256) : (run sha256 zone store calls).Coherent sha256 := by
  induction calls generalizing store with
  | nil => exact coherent
  | cons call rest ih =>
    exact ih (step_coherent sha256 call coherent)

/-- A turn adds no order, or one order under an intent that it records. -/
theorem placed_cases (zone : Zone) (store : Store Digest) (call : Call Digest) :
    call.placed sha256 zone store = [] ∨
      ∃ intentId orderId, call.placed sha256 zone store = [(intentId, orderId)] ∧
        store.intakes.lookup intentId = none ∧
        (call.step sha256 zone store).intakes.lookup intentId ≠ none := by
  cases call with
  | other change keeps => exact .inl rfl
  | submit payload now =>
    cases payload with
    | none => exact .inl rfl
    | some intent =>
      obtain same | ⟨submitted, receipt, given, -, accepted⟩ :=
        submitIntent_cases sha256 zone (some intent) now store
      · refine .inl ?_
        rw [Call.placed, same]
        simp
      · cases given
        refine .inr ⟨intent.intentId, nextOrderId store, ?_, accepted.fresh, ?_⟩
        · obtain ⟨order, orders⟩ := accepted.orders
          have unlisted := nextOrderId_unlisted store
          simp [Call.placed, orders, AList.keys_insert, List.erase_of_not_mem unlisted, unlisted]
        · rw [Call.step, accepted.intakes, AList.lookup_insert]
          exact Option.some_ne_none _

/-- No order of a run is placed for an intent that was recorded before it. -/
theorem placements_fresh {zone : Zone} (calls : List (Call Digest)) {store : Store Digest}
    {placement : String × OrderId} (placed : placement ∈ placements sha256 zone store calls) :
    store.intakes.lookup placement.1 = none := by
  induction calls generalizing store with
  | nil => cases placed
  | cons call rest ih =>
    rcases List.mem_append.mp placed with now | later
    · obtain none | ⟨intentId, orderId, one, fresh, -⟩ := placed_cases sha256 zone store call
      · rw [none] at now
        cases now
      · rw [one, List.mem_singleton] at now
        rw [now]
        exact fresh
    · exact step_lookup sha256 (ih later)

/-- A run places at most one order for each intent. -/
theorem placements_nodup (zone : Zone) (calls : List (Call Digest)) (store : Store Digest) :
    ((placements sha256 zone store calls).map Prod.fst).Nodup := by
  induction calls generalizing store with
  | nil => exact List.nodup_nil
  | cons call rest ih =>
    have later := ih (call.step sha256 zone store)
    obtain none | ⟨intentId, orderId, one, -, recorded⟩ := placed_cases sha256 zone store call
    · rwa [placements, none, List.nil_append]
    · rw [placements, one, List.singleton_append, List.map_cons, List.nodup_cons]
      refine ⟨?_, later⟩
      intro repeated
      obtain ⟨placement, member, same⟩ := List.mem_map.mp repeated
      have fresh := placements_fresh sha256 rest member
      rw [same] at fresh
      exact recorded fresh

theorem submitIntent_recorded {zone : Zone} {store : Store Digest} {intent : Intent}
    {row : IntakeRow Digest} (keyed : intent.wellKeyed = true)
    (found : store.intakes.lookup intent.intentId = some row) :
    submitIntent sha256 zone (some intent) now store =
      ((loadSpec sha256 store intent.accountId).bind fun spec =>
        replay sha256 store spec row intent, store) := by
  simp only [submitIntent, keyed, if_true, transaction, intake, found]
  cases loadSpec sha256 store intent.accountId with
  | error refusal => rfl
  | ok spec =>
    simp only [Except.bind]
    cases replay sha256 store spec row intent with
    | error refusal => rfl
    | ok receipt => rfl

/-- The answer to a stored intent that comes again with identical evidence. -/
def repeatedAnswer (store : Store Digest) (row : IntakeRow Digest) (intent : Intent) :
    Except Refusal Receipt := do
  let spec ← loadSpec sha256 store intent.accountId
  if matchesOrder store row.orderId intent then
    .ok (if spec.schemaVersion = 1 then .v1 row.orderId true else row.receipt)
  else .error .orderChanged

theorem replay_identical {store : Store Digest} {row : IntakeRow Digest} {intent : Intent}
    (spec : Spec) (account : row.accountId = intent.accountId)
    (digest : row.sha256 = sha256 (.intent intent)) (payload : row.payload = intent) :
    replay sha256 store spec row intent =
      if matchesOrder store row.orderId intent then
        .ok (if spec.schemaVersion = 1 then .v1 row.orderId true else row.receipt)
      else .error .orderChanged := by
  unfold replay
  rw [payload]
  by_cases current : matchesOrder store row.orderId intent = true
  · simp [require, account, digest, current, Bind.bind, Except.bind]
  · simp [require, account, digest, current, Bind.bind, Except.bind]

theorem replay_different {store : Store Digest} {row : IntakeRow Digest} {intent : Intent}
    (spec : Spec) (different : sha256 (.intent row.payload) ≠ sha256 (.intent intent)) :
    replay sha256 store spec row intent = .error .differentEvidence := by
  simp [replay, require, different, Bind.bind, Except.bind]

/-- Submission is exactly-once and atomic over every run from an empty intake table. A run
places at most one order for each intent. In the store it leaves, a refused call changes no
table, a stored intent that comes again changes nothing and is answered from its row while
its specification loads and its order still matches, and an identifier that comes again
with other evidence is refused. -/
theorem submitIntent_exactly_once (zone : Zone) {initial : Store Digest}
    (empty : initial.intakes = ∅) (calls : List (Call Digest)) (payload : Option Intent)
    (now : Int) :
    ((placements sha256 zone initial calls).map Prod.fst).Nodup ∧
      (∀ refusal after,
        submitIntent sha256 zone payload now (run sha256 zone initial calls) =
          (.error refusal, after) →
        SameTables (run sha256 zone initial calls) after) ∧
      ∀ intent row, payload = some intent →
        (run sha256 zone initial calls).intakes.lookup intent.intentId = some row →
        (row.payload = intent →
          submitIntent sha256 zone payload now (run sha256 zone initial calls) =
            (repeatedAnswer sha256 (run sha256 zone initial calls) row intent,
              run sha256 zone initial calls)) ∧
        (sha256 (.intent row.payload) ≠ sha256 (.intent intent) →
          ∃ refusal after,
            submitIntent sha256 zone payload now (run sha256 zone initial calls) =
              (.error refusal, after)) := by
  have coherent : (run sha256 zone initial calls).Coherent sha256 := by
    apply run_coherent
    intro intentId row found
    rw [empty] at found
    cases found
  refine ⟨placements_nodup sha256 zone calls initial, ?_, ?_⟩
  · intro refusal after refused
    exact submitIntent_refused sha256 refused
  · rintro intent row rfl found
    obtain ⟨-, account, digest, keyed⟩ := coherent _ _ found
    refine ⟨?_, ?_⟩
    · rintro rfl
      rw [submitIntent_recorded sha256 keyed found, repeatedAnswer]
      simp only [replay_identical sha256 _ account digest rfl]
      rfl
    · intro different
      by_cases given : intent.wellKeyed = true
      · rw [submitIntent_recorded sha256 given found]
        simp only [replay_different sha256 _ different]
        cases loadSpec sha256 (run sha256 zone initial calls) intent.accountId with
        | error refusal => exact ⟨refusal, _, rfl⟩
        | ok spec => exact ⟨.differentEvidence, _, rfl⟩
      · exact ⟨.invalidVersion intent.schemaVersion, run sha256 zone initial calls,
          by simp [submitIntent, given]⟩

end Intake

/-- A specification of one stock account. -/
def stockSpec : Spec where
  schemaVersion := 1
  accountId := "alpha"
  strategyRef := "momentum"
  strategyVersion := ""
  specSha256 := String.ofList (List.replicate 64 'a')
  artifactSha256 := ""
  registrationSha256 := String.ofList (List.replicate 64 'b')
  instrumentKinds := [.stock]
  capitalUsd := 10000
  maxPositionFraction := 1 / 2
  maxGrossFraction := 1
  minTradeUsd := 100
  accountType := .cashLegacy
  allowShort := false
  priceSource := .prices
  benchmark := ""
  dayTradesPerWeekExpected := 0
  dayTradeRule := .pdt25kLegacy
  wholeShares := false

/-- Buy ten shares on a session's close, an hour after it. -/
def tenShares : Intent where
  canonical := "ten"
  schemaVersion := 1
  wellKeyed := true
  intentId := "first"
  accountId := "alpha"
  specSha256 := stockSpec.specSha256
  registrationSha256 := stockSpec.registrationSha256
  sourceSha256 := String.ofList (List.replicate 64 'c')
  instrumentKind := .stock
  instrumentId := "SYM"
  side := some .buy
  quantity := .int 10
  sessionDate := some 739769
  createdAt := some (closed daylightTime 739769)
  orderType := none
  limitPrice := none
  timeInForce := ""
  contingentOn := none
  legs := none

/-- The admitted account before its first intent. -/
def admitted : Store Evidence where
  specs := AList.singleton "alpha" ⟨stockSpec, .spec stockSpec⟩
  portfolios := AList.singleton "alpha" ⟨10000, true, some (.spec stockSpec), false, 10000, []⟩
  settings := ∅
  orders := ∅
  details := ∅
  instruments := ∅
  intakes := ∅
  equity := ∅
  latestPriceDate := some 739769
  mark := fun _ _ _ => some 20
  closeOn := fun _ _ => some 20
  sequence := 0

/-- The store after the first submission. -/
def onceSubmitted : Store Evidence :=
  run id daylightTime admitted [.submit (some tenShares) (closed daylightTime 739769)]

/-- The row that the first submission leaves. -/
def tenSharesRow : IntakeRow Evidence :=
  ⟨"alpha", 1, tenShares, .intent tenShares, closed daylightTime 739769, .v1 1 false⟩

theorem onceSubmitted_facts :
    onceSubmitted.intakes.lookup "first" = some tenSharesRow ∧
      repeatedAnswer id onceSubmitted tenSharesRow tenShares = .ok (.v1 1 true) ∧
      onceSubmitted.orders.keys = [1] := by
  decide +kernel

/-- The stored receipt says that the order is new; the repeated one says that it is not. -/
theorem repeated_receipt_differs :
    ¬ ∀ (initial : Store Evidence) (calls : List (Call Evidence)) (intent : Intent) (now : Int)
        (row : IntakeRow Evidence), initial.intakes = ∅ →
      (run id daylightTime initial calls).intakes.lookup intent.intentId = some row →
      row.payload = intent →
      (submitIntent id daylightTime (some intent) now (run id daylightTime initial calls)).1 =
        .ok row.receipt := by
  intro returned
  obtain ⟨stored, repeated, -⟩ := onceSubmitted_facts
  have answer := returned admitted [.submit (some tenShares) (closed daylightTime 739769)]
    tenShares (closed daylightTime 739769) tenSharesRow rfl stored rfl
  have changed : (submitIntent id daylightTime (some tenShares) (closed daylightTime 739769)
      onceSubmitted).1 = .ok (.v1 1 true) := by
    have replayed := fun spec =>
      @replay_identical Evidence _ id onceSubmitted tenSharesRow tenShares spec rfl rfl rfl
    rw [submitIntent_recorded id rfl stored, ← repeated, repeatedAnswer]
    simp only [replayed]
    rfl
  exact absurd (changed.symm.trans answer) (by decide)

/-- The same intent again places nothing and is answered from its row; the same identifier
for eleven shares is refused. -/
theorem tenShares_exactly_once :
    placements id daylightTime admitted
        [.submit (some tenShares) (closed daylightTime 739769),
          .submit (some tenShares) (closed daylightTime 739769)] = [("first", 1)] ∧
      submitIntent id daylightTime (some tenShares) (closed daylightTime 739769) onceSubmitted =
        (.ok (.v1 1 true), onceSubmitted) ∧
      ∃ refusal after, submitIntent id daylightTime
        (some { tenShares with canonical := "eleven", quantity := .int 11 })
        (closed daylightTime 739769) onceSubmitted = (.error refusal, after) := by
  obtain ⟨stored, repeated, placed⟩ := onceSubmitted_facts
  have identical := (submitIntent_exactly_once id daylightTime (show admitted.intakes = ∅ from rfl)
    [.submit (some tenShares) (closed daylightTime 739769)] (some tenShares)
    (closed daylightTime 739769)).2.2 tenShares tenSharesRow rfl stored
  have different := (submitIntent_exactly_once id daylightTime (show admitted.intakes = ∅ from rfl)
    [.submit (some tenShares) (closed daylightTime 739769)]
    (some { tenShares with canonical := "eleven", quantity := .int 11 })
    (closed daylightTime 739769)).2.2 _ tenSharesRow rfl stored
  have again : submitIntent id daylightTime (some tenShares) (closed daylightTime 739769)
      onceSubmitted = (.ok (.v1 1 true), onceSubmitted) := by
    rw [← repeated]
    exact identical.1 rfl
  have first : (Call.submit (some tenShares) (closed daylightTime 739769)).placed id daylightTime
      admitted = [("first", 1)] := by
    change (onceSubmitted.orders.keys.filter fun id => id ∉ admitted.orders.keys).map
      (fun id => (tenShares.intentId, id)) = _
    rw [placed]
    rfl
  have second : (Call.submit (some tenShares) (closed daylightTime 739769)).placed id daylightTime
      onceSubmitted = [] := by
    rw [Call.placed, again]
    simp
  refine ⟨?_, again, different.2 (by decide)⟩
  change (Call.submit (some tenShares) (closed daylightTime 739769)).placed id daylightTime
    admitted ++ ((Call.submit (some tenShares) (closed daylightTime 739769)).placed id
      daylightTime onceSubmitted ++ []) = _
  rw [first, second]
  rfl

end TradingEngine.PaperAccounts
