import TradingEngine.KeyedTables

/-!
# Receipts and bitemporal facts

A receipt keeps the raw response of a source. A fact says what was known of an entity at an
instant, and a later fact about the same instant is a revision that names the one before it by
its hash. Rows are only ever appended, and the store refuses a row that breaks a constraint.

A batch of quotes is prepared first. One transaction then keeps the receipt, reads the latest
revisions of all its instants at once and inserts the facts that are new. Hashes are functions
of what they are taken of, and no property of them is used.
-/

namespace TradingEngine.Facts

open KeyedTables

abbrev Instant := Int
abbrev Digest := String

inductive Fault where
  | fact (message : String)
  | serialization
  | constraint

structure ReceiptIdentity where
  schemaVersion : Int
  source : String
  dataset : String
  endpoint : String
  requestSha256 : Digest
  requestedAt : Instant
  receivedAt : Instant
  httpStatus : Int
  contentType : String
  responseSizeBytes : ℕ
  responseSha256 : Digest
  licenseClass : String

structure ReceiptRow where
  id : Int
  identity : ReceiptIdentity
  requestPayload : String
  responseBody : List UInt8
  receiptSha256 : Digest

structure FactIdentity where
  schemaVersion : Int
  entityId : String
  securityId : Option String
  factType : String
  eventAt : Instant
  publishedAt : Option Instant
  availableAt : Instant
  ingestedAt : Instant
  revision : Int
  normalizedSha256 : Digest
  source : String
  sourceVersion : String
  receiptSha256 : Digest
  previousFactSha256 : Option Digest
  deriving DecidableEq

structure FactRow where
  id : Int
  identity : FactIdentity
  normalizedPayload : String
  factSha256 : Digest
  deriving DecidableEq

namespace FactRow

def revision (row : FactRow) : Int := row.identity.revision

/-- The columns that tell one series of revisions from another. -/
def series (row : FactRow) : String × String × Instant :=
  (row.identity.entityId, row.identity.factType, row.identity.eventAt)

end FactRow

/-- What a database of receipts and facts enforces. -/
structure Constraints (receipts : List ReceiptRow) (facts : List FactRow) : Prop where
  receiptIds : (receipts.map ReceiptRow.id).Nodup
  receiptHashes : (receipts.map ReceiptRow.receiptSha256).Nodup
  receiptRange : ∀ row ∈ receipts, -2 ^ 63 ≤ row.id ∧ row.id < 2 ^ 63
  factIds : (facts.map FactRow.id).Nodup
  factHashes : (facts.map FactRow.factSha256).Nodup
  factRevisions : (facts.map fun row => (row.series, row.revision)).Nodup
  factRange : ∀ row ∈ facts, (-2 ^ 63 ≤ row.id ∧ row.id < 2 ^ 63) ∧
    -2 ^ 31 ≤ row.revision ∧ row.revision < 2 ^ 31

instance (receipts : List ReceiptRow) (facts : List FactRow) :
    Decidable (Constraints receipts facts) :=
  decidable_of_iff
    ((receipts.map ReceiptRow.id).Nodup ∧ (receipts.map ReceiptRow.receiptSha256).Nodup ∧
      (∀ row ∈ receipts, -2 ^ 63 ≤ row.id ∧ row.id < 2 ^ 63) ∧
      (facts.map FactRow.id).Nodup ∧ (facts.map FactRow.factSha256).Nodup ∧
      (facts.map fun row => (row.series, row.revision)).Nodup ∧
      ∀ row ∈ facts, (-2 ^ 63 ≤ row.id ∧ row.id < 2 ^ 63) ∧
        -2 ^ 31 ≤ row.revision ∧ row.revision < 2 ^ 31)
    ⟨fun ⟨one, two, three, four, five, six, seven⟩ => ⟨one, two, three, four, five, six, seven⟩,
      fun ⟨one, two, three, four, five, six, seven⟩ =>
        ⟨one, two, three, four, five, six, seven⟩⟩

/-- The tables, whose rows meet the constraints. -/
structure FactStore where
  receipts : List ReceiptRow
  facts : List FactRow
  constraints : Constraints receipts facts

/-- A query leaves the store that it has made even when it raises. -/
abbrev Query (α : Type) := EStateM Fault FactStore α

namespace Query

variable {α β : Type}

def raise (fault : Fault) : Query α := fun store => .error fault store

/-- A check that does not use the store. -/
def check (result : Except Fault α) : Query α := fun store =>
  match result with
  | .ok value => .ok value store
  | .error fault => .error fault store

def look (look : FactStore → α) : Query α := fun store => .ok (look store) store

/-- A transaction that raises is rolled back. -/
def transaction (body : Query α) : Query α := fun store =>
  match body store with
  | .ok value after => .ok value after
  | .error fault _ => .error fault store

def insertReceipt (row : ReceiptRow) : Query Unit := fun store =>
  if meets : Constraints (store.receipts ++ [row]) store.facts then
    .ok () ⟨store.receipts ++ [row], store.facts, meets⟩
  else .error .constraint store

def insertFact (row : FactRow) : Query Unit := fun store =>
  if meets : Constraints store.receipts (store.facts ++ [row]) then
    .ok () ⟨store.receipts, store.facts ++ [row], meets⟩
  else .error .constraint store

def insertFacts : List FactRow → Query Unit
  | [] => pure ()
  | row :: rest => do
    insertFact row
    insertFacts rest

end Query

/-- One more than the largest identity, or than zero if there is none. -/
def nextId (ids : List Int) : Int := ids.max?.getD 0 + 1

/-- What is read of values, and the encodings and hashes. Only the characters beyond ASCII
have their classes here. -/
structure World (Value : Type) where
  printable : Char → Bool
  white : Char → Bool
  text? : Value → Option String
  utc? : Value → Option Instant
  same : Value → Value → Bool
  json : (allowNan : Bool) → Table String Value → Option String
  textSha256 : String → Digest
  bodySha256 : List UInt8 → Digest
  receiptSha256 : ReceiptIdentity → Digest
  factSha256 : FactIdentity → Digest

section Checks

variable {Value : Type} (world : World Value)

def World.isPrintable (character : Char) : Bool :=
  if character.toNat < 128 then 32 ≤ character.toNat && character.toNat < 127
  else world.printable character

def World.isSpace (character : Char) : Bool :=
  if character.toNat < 128 then
    9 ≤ character.toNat && character.toNat ≤ 13 || 28 ≤ character.toNat && character.toNat ≤ 32
  else world.white character

/-- A check that refuses what it is told to. -/
def refuse (condition : Prop) [Decidable condition] (message : String) : Except Fault Unit :=
  if condition then .error (.fact message) else .ok ()

def text (value field : String) (maximum : ℕ) : Except Fault String :=
  if value.toList.all world.isSpace || decide (maximum < value.toList.length) ||
      !value.toList.all world.isPrintable then
    .error (.fact (field ++ " is invalid"))
  else .ok value

def utc (value : Value) (field : String) : Except Fault Instant :=
  match world.utc? value with
  | some instant => .ok instant
  | none => .error (.fact (field ++ " must be timezone-aware"))

/-- A document as text, which raises on a number that is not finite. -/
def dumps (document : Table String Value) : Except Fault String :=
  match world.json false document with
  | some encoded => .ok encoded
  | none => .error .serialization

def canonicalSha256 (document : Table String Value) : Except Fault Digest :=
  match world.json true document with
  | some encoded => .ok (world.textSha256 encoded)
  | none => .error .serialization

end Checks

def schemaVersion : Int := 1
def maxRawBytes : ℕ := 2000000

section Single

variable {Value : Type} (world : World Value)

structure ReceiptArguments (Value : Type) where
  source : String
  dataset : String
  endpoint : String
  request : Table String Value
  requestedAt : Value
  receivedAt : Value
  httpStatus : Int
  contentType : String
  body : List UInt8
  licenseClass : String

/-- What a caller is told of a receipt. -/
structure Receipt where
  identity : ReceiptIdentity
  id : Int
  receiptSha256 : Digest
  replayed : Bool

/-- The identity of a receipt and the text of its request. -/
def receiptIdentity (arguments : ReceiptArguments Value) :
    Except Fault (ReceiptIdentity × String) := do
  refuse (arguments.body = [] ∨ maxRawBytes < arguments.body.length)
    "source response body is invalid"
  let requested ← utc world arguments.requestedAt "requested_at"
  let received ← utc world arguments.receivedAt "received_at"
  refuse (received < requested) "source response times are inconsistent"
  let requestJson ← dumps world arguments.request
  let source ← text world arguments.source "source" 256
  let dataset ← text world arguments.dataset "dataset" 256
  let endpoint ← text world arguments.endpoint "endpoint" 2048
  let contentType ← text world arguments.contentType "content_type" 256
  let licenseClass ← text world arguments.licenseClass "license_class" 256
  return ({
    schemaVersion
    source
    dataset
    endpoint
    requestSha256 := world.textSha256 requestJson
    requestedAt := requested
    receivedAt := received
    httpStatus := arguments.httpStatus
    contentType
    responseSizeBytes := arguments.body.length
    responseSha256 := world.bodySha256 arguments.body
    licenseClass }, requestJson)

/-- Keep a receipt, unless it is kept already. -/
def keepReceipt (identity : ReceiptIdentity) (requestJson : String) (body : List UInt8) :
    Query Receipt := do
  let receiptSha256 := world.receiptSha256 identity
  let existing ← Query.look fun store =>
    store.receipts.find? fun row => row.receiptSha256 = receiptSha256
  match existing with
  | some row =>
    if row.identity.responseSha256 ≠ identity.responseSha256 then
      Query.raise (.fact "source receipt replay differs")
    else return ⟨identity, row.id, receiptSha256, true⟩
  | none =>
    let id ← Query.look fun store => nextId (store.receipts.map ReceiptRow.id)
    Query.insertReceipt ⟨id, identity, requestJson, body, receiptSha256⟩
    return ⟨identity, id, receiptSha256, false⟩

def recordReceipt (arguments : ReceiptArguments Value) : Query Receipt := do
  let (identity, requestJson) ← Query.check (receiptIdentity world arguments)
  keepReceipt world identity requestJson arguments.body

structure FactArguments (Value : Type) where
  entityId : String
  securityId : Option String
  factType : String
  eventAt : Value
  publishedAt : Option Value
  availableAt : Value
  ingestedAt : Value
  payload : Table String Value
  source : String
  sourceVersion : String
  receiptSha256 : Digest

/-- What a caller is told of a fact. -/
structure Outcome where
  factSha256 : Digest
  revision : Int
  replayed : Bool

/-- The instants of a fact. -/
structure FactTimes where
  event : Instant
  published : Option Instant
  available : Instant
  ingested : Instant

def validatedFactTimes (arguments : FactArguments Value) : Except Fault FactTimes := do
  let _ ← text world arguments.entityId "entity_id" 256
  let _ ← text world arguments.factType "fact_type" 256
  let _ ← text world arguments.source "source" 256
  let _ ← text world arguments.sourceVersion "source_version" 256
  let event ← utc world arguments.eventAt "event_at"
  let available ← utc world arguments.availableAt "available_at"
  let ingested ← utc world arguments.ingestedAt "ingested_at"
  let published ← arguments.publishedAt.mapM fun value => utc world value "published_at"
  refuse (available < event ∨
      published.any fun published => published < event || available < published)
    "fact event/publication/availability times are inconsistent"
  refuse (ingested < available) "fact availability is after ingestion"
  return ⟨event, published, available, ingested⟩

def requireReceipt (receiptSha256 : Digest) : Query Unit := do
  let kept ← Query.look fun store =>
    store.receipts.any fun row => row.receiptSha256 = receiptSha256
  if kept then return else Query.raise (.fact "fact source receipt is unavailable")

/-- The fact with the greatest revision of a series. -/
def latestFact (facts : List FactRow) (series : String × String × Instant) : Option FactRow :=
  let rows := facts.filter fun row => row.series = series
  rows.find? fun row => rows.all fun other => other.revision ≤ row.revision

/-- The row of a new revision. -/
def factRow (id : Int) (arguments : FactArguments Value) (times : FactTimes) (revision : Int)
    (normalized : String) (normalizedSha : Digest) (previous : Option Digest) : FactRow :=
  let identity : FactIdentity := {
    schemaVersion
    entityId := arguments.entityId
    securityId := arguments.securityId
    factType := arguments.factType
    eventAt := times.event
    publishedAt := times.published
    availableAt := times.available
    ingestedAt := times.ingested
    revision
    normalizedSha256 := normalizedSha
    source := arguments.source
    sourceVersion := arguments.sourceVersion
    receiptSha256 := arguments.receiptSha256
    previousFactSha256 := previous }
  ⟨id, identity, normalized, world.factSha256 identity⟩

def recordFact (arguments : FactArguments Value) : Query Outcome := do
  let times ← Query.check (validatedFactTimes world arguments)
  requireReceipt arguments.receiptSha256
  let normalized ← Query.check (dumps world arguments.payload)
  let normalizedSha ← Query.check (canonicalSha256 world arguments.payload)
  let latest ← Query.look fun store =>
    latestFact store.facts (arguments.entityId, arguments.factType, times.event)
  match latest.filter fun row => row.identity.normalizedSha256 = normalizedSha with
  | some row => return ⟨row.factSha256, row.revision, true⟩
  | none =>
    let revision := latest.elim 1 fun row => row.revision + 1
    let previous := latest.map FactRow.factSha256
    let id ← Query.look fun store => nextId (store.facts.map FactRow.id)
    let row := factRow world id arguments times revision normalized normalizedSha previous
    Query.insertFact row
    return ⟨row.factSha256, revision, false⟩

end Single

section Batch

variable {Value : Type} (world : World Value)

structure QuoteBatch (Value : Type) where
  source : String
  endpoint : String
  request : Table String Value
  requestedAt : Value
  receivedAt : Value
  contentType : String
  body : List UInt8
  quotes : List (Table String Value)
  interval : String
  sourceVersion : String
  licenseClass : String
  ingestedAt : Option Value

def quoteKeys : Finset String :=
  {"ticker", "event_at", "open", "high", "low", "close", "volume"}

/-- The part of a quote that is kept. -/
def quotePayload (quote : Table String Value) : Table String Value :=
  filterRows (fun key _ => key ∈ ["open", "high", "low", "close", "volume"]) quote

/-- A quote that is ready to be kept. -/
structure Prepared where
  entityId : String
  event : Instant
  available : Instant
  ingested : Instant
  normalized : String
  normalizedSha : Digest

namespace QuoteBatch

variable (batch : QuoteBatch Value)

def ingested : Value := batch.ingestedAt.getD batch.receivedAt

def factType : String := "intraday.ohlcv." ++ batch.interval

def receiptArguments : ReceiptArguments Value where
  source := batch.source
  dataset := "intraday_quote"
  endpoint := batch.endpoint
  request := batch.request
  requestedAt := batch.requestedAt
  receivedAt := batch.receivedAt
  httpStatus := 200
  contentType := batch.contentType
  body := batch.body
  licenseClass := batch.licenseClass

/-- The ticker and the time of a quote with the right shape. -/
def identify (quote : Table String Value) : Except Fault (String × Value) :=
  if quote.keys.toFinset ≠ quoteKeys then .error (.fact "intraday quote shape is invalid")
  else
    match (quote.lookup "ticker").bind world.text?, quote.lookup "event_at" with
    | some ticker, some eventAt => .ok (ticker, eventAt)
    | _, _ => .error (.fact "intraday quote identity is invalid or duplicated")

def prepareQuote (quote : Table String Value) (ticker : String) (eventAt : Value) :
    Except Fault Prepared := do
  let entityId ← text world ticker "entity_id" 256
  let event ← utc world eventAt "event_at"
  let available ← utc world batch.receivedAt "available_at"
  let ingested ← utc world batch.ingested "ingested_at"
  refuse (available < event) "fact event/publication/availability times are inconsistent"
  refuse (ingested < available) "fact availability is after ingestion"
  let normalized ← dumps world (quotePayload quote)
  let normalizedSha ← canonicalSha256 world (quotePayload quote)
  return ⟨entityId, event, available, ingested, normalized, normalizedSha⟩

def prepareQuotes : List (String × Value) → List (Table String Value) →
    Except Fault (List Prepared)
  | _, [] => .ok []
  | seen, quote :: rest => do
    let (ticker, eventAt) ← identify world quote
    refuse (seen.any fun other => other.1 = ticker && world.same other.2 eventAt)
      "intraday quote identity is invalid or duplicated"
    let prepared ← prepareQuote world batch quote ticker eventAt
    let others ← prepareQuotes (seen ++ [(ticker, eventAt)]) rest
    return prepared :: others

/-- The checks of a call before its transaction. -/
def prepare : Except Fault (List Prepared) := do
  let _ ← text world batch.interval "interval" 16
  let _ ← text world batch.source "source" 256
  let _ ← text world batch.sourceVersion "source_version" 256
  prepareQuotes world batch [] batch.quotes

end QuoteBatch

/-- The rows of a type of some entities between two instants, each the latest revision of its
series among them. -/
def latestRows (facts : List FactRow) (factType : String) (entities : List String)
    (first last : Instant) : List FactRow :=
  let rows := facts.filter fun row =>
    row.identity.factType = factType && row.identity.entityId ∈ entities &&
      first ≤ row.identity.eventAt && row.identity.eventAt ≤ last
  rows.filter fun row =>
    rows.all fun other => decide (other.series = row.series → other.revision ≤ row.revision)

/-- A dictionary of rows has the last one for every key. -/
def latestByKey (rows : List FactRow) (entityId : String) (event : Instant) : Option FactRow :=
  rows.reverse.find? fun row => row.identity.entityId = entityId && row.identity.eventAt = event

/-- The latest revisions of all that is prepared, read at once. -/
def preload (facts : List FactRow) (factType : String) (prepared : List Prepared) :
    List FactRow :=
  match (prepared.map Prepared.event).min?, (prepared.map Prepared.event).max? with
  | some first, some last =>
    latestRows facts factType (prepared.map Prepared.entityId) first last
  | _, _ => []

namespace QuoteBatch

variable (batch : QuoteBatch Value)

/-- What becomes of a prepared quote, and its row without an identity if it is new. -/
def settle (receiptSha256 : Digest) (latest : Option FactRow) (prepared : Prepared) :
    Outcome × Option (Int → FactRow) :=
  match latest.filter fun row => row.identity.normalizedSha256 = prepared.normalizedSha with
  | some row => (⟨row.factSha256, row.revision, true⟩, none)
  | none =>
    let revision := latest.elim 1 fun row => row.revision + 1
    let identity : FactIdentity := {
      schemaVersion
      entityId := prepared.entityId
      securityId := some prepared.entityId
      factType := batch.factType
      eventAt := prepared.event
      publishedAt := none
      availableAt := prepared.available
      ingestedAt := prepared.ingested
      revision
      normalizedSha256 := prepared.normalizedSha
      source := batch.source
      sourceVersion := batch.sourceVersion
      receiptSha256
      previousFactSha256 := latest.map FactRow.factSha256 }
    (⟨world.factSha256 identity, revision, false⟩,
      some fun id => ⟨id, identity, prepared.normalized, world.factSha256 identity⟩)

end QuoteBatch

/-- Rows get identities that count up. -/
def numberRows (first : Int) : List (Int → FactRow) → List FactRow
  | [] => []
  | row :: rest => row first :: numberRows (first + 1) rest

structure BatchResult where
  receiptSha256 : Digest
  factCount : ℕ
  factSha256s : List Digest
  replayed : Bool

/-- The part of a call inside its transaction. -/
def QuoteBatch.keep (batch : QuoteBatch Value) (prepared : List Prepared) :
    Query BatchResult := do
  let receipt ← recordReceipt world batch.receiptArguments
  let loaded ← Query.look fun store => preload store.facts batch.factType prepared
  let settled := prepared.map fun quote =>
    batch.settle world receipt.receiptSha256 (latestByKey loaded quote.entityId quote.event) quote
  let inserts := settled.filterMap Prod.snd
  let firstId ← Query.look fun store => nextId (store.facts.map FactRow.id)
  Query.insertFacts (numberRows firstId inserts)
  let facts := settled.map Prod.fst
  return {
    receiptSha256 := receipt.receiptSha256
    factCount := inserts.length
    factSha256s := facts.map Outcome.factSha256
    replayed := receipt.replayed && facts.all Outcome.replayed }

def recordIntradayQuoteBatch (batch : QuoteBatch Value) : Query BatchResult := do
  let prepared ← Query.check (batch.prepare world)
  Query.transaction (batch.keep world prepared)

/-- One quote of a batch, kept by a call of its own. -/
def recordQuote (batch : QuoteBatch Value) (receiptSha256 : Digest)
    (quote : Table String Value) : Query Outcome := do
  let (ticker, eventAt) ← Query.check (QuoteBatch.identify world quote)
  recordFact world {
    entityId := ticker
    securityId := some ticker
    factType := batch.factType
    eventAt
    publishedAt := none
    availableAt := batch.receivedAt
    ingestedAt := batch.ingested
    payload := quotePayload quote
    source := batch.source
    sourceVersion := batch.sourceVersion
    receiptSha256 }

def recordQuotes (batch : QuoteBatch Value) (receiptSha256 : Digest) :
    List (Table String Value) → Query (List Outcome)
  | [] => pure []
  | quote :: rest => do
    let outcome ← recordQuote world batch receiptSha256 quote
    let others ← recordQuotes batch receiptSha256 rest
    return outcome :: others

/-- The receipt of a batch and its quotes in order, each by a call of its own. -/
def recordOneByOne (batch : QuoteBatch Value) : Query (Receipt × List Outcome) := do
  let receipt ← recordReceipt world batch.receiptArguments
  let outcomes ← recordQuotes world batch receipt.receiptSha256 batch.quotes
  return (receipt, outcomes)

end Batch

end TradingEngine.Facts
