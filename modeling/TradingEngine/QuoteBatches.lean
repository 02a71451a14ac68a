import TradingEngine.BitemporalFacts
import TradingEngine.Runs

/-!
# A batch of quotes and its quotes one at a time

A fact is new when the latest revision of its series differs from it. A batch reads the latest
revisions of all its series before it inserts anything, and a call for one quote reads the
latest revision of its own series when its turn comes. The two read the same rows as long as
the quotes before it have other series, and give the same identities to the new rows. What a
batch has kept is the latest revision of its series afterwards, so that the batch changes
nothing when it is kept again.
-/

namespace TradingEngine.Facts

open KeyedTables Runs

/-- Where at most one element passes a test, it is the one that is found. -/
theorem find?_eq_some_iff_of_unique {α : Type*} {elements : List α} {test : α → Bool}
    (unique : ∀ one ∈ elements, ∀ two ∈ elements, test one = true → test two = true → one = two)
    {element : α} :
    elements.find? test = some element ↔ element ∈ elements ∧ test element = true := by
  constructor
  · intro found
    exact ⟨List.mem_of_find?_eq_some found, List.find?_some found⟩
  · rintro ⟨listed, passes⟩
    cases found : elements.find? test with
    | none => exact absurd passes (by simpa using List.find?_eq_none.mp found element listed)
    | some other =>
      rw [unique other (List.mem_of_find?_eq_some found) element listed
        (List.find?_some found) passes]

/-- A row with the greatest revision of its series. -/
structure IsLatest (facts : List FactRow) (series : String × String × Instant) (row : FactRow) :
    Prop where
  stored : row ∈ facts
  alike : row.series = series
  greatest : ∀ other ∈ facts, other.series = series → other.revision ≤ row.revision

section Latest

variable {facts : List FactRow} {series : String × String × Instant} {one two row : FactRow}

theorem IsLatest.unique (revisions : (facts.map fun row => (row.series, row.revision)).Nodup)
    (first : IsLatest facts series one) (second : IsLatest facts series two) : one = two := by
  apply List.inj_on_of_nodup_map revisions first.stored second.stored
  have least := second.greatest one first.stored first.alike
  have most := first.greatest two second.stored second.alike
  rw [first.alike, second.alike, le_antisymm least most]

theorem exists_isLatest (stored : row ∈ facts) :
    ∃ latest, IsLatest facts row.series latest := by
  obtain ⟨latest, listed, greatest⟩ := Finset.exists_max_image
    (facts.filter fun other => other.series = row.series).toFinset FactRow.revision
    ⟨row, by simpa using stored⟩
  simp only [List.mem_toFinset, List.mem_filter, decide_eq_true_eq] at listed greatest
  exact ⟨latest, listed.1, listed.2, fun other stored alike => greatest other ⟨stored, alike⟩⟩

theorem latestFact_eq_some_iff
    (revisions : (facts.map fun row => (row.series, row.revision)).Nodup) :
    latestFact facts series = some row ↔ IsLatest facts series row := by
  have greatest (row : FactRow) : (row ∈ facts.filter fun row => row.series = series) ∧
      ((facts.filter fun row => row.series = series).all fun other =>
        other.revision ≤ row.revision) = true ↔ IsLatest facts series row := by
    simp only [List.mem_filter, decide_eq_true_eq, List.all_eq_true, and_imp]
    constructor
    · rintro ⟨⟨stored, same⟩, greatest⟩
      exact ⟨stored, same, greatest⟩
    · rintro ⟨stored, same, greatest⟩
      exact ⟨⟨stored, same⟩, greatest⟩
  unfold latestFact
  rw [find?_eq_some_iff_of_unique, greatest]
  intro one listed two listed' most most'
  exact ((greatest one).mp ⟨listed, most⟩).unique revisions ((greatest two).mp ⟨listed', most'⟩)

theorem latestFact_append {rows : List FactRow} (others : ∀ row ∈ rows, row.series ≠ series) :
    latestFact (facts ++ rows) series = latestFact facts series := by
  have none_ : rows.filter (fun row => row.series = series) = [] := by
    apply List.filter_eq_nil_iff.mpr
    intro row listed
    simpa using others row listed
  unfold latestFact
  rw [List.filter_append, none_, List.append_nil]

theorem latestFact_append_new
    (revisions : ((facts ++ [row]).map fun row => (row.series, row.revision)).Nodup)
    (same : row.series = series)
    (next : ∀ latest ∈ latestFact facts series, latest.revision < row.revision) :
    latestFact (facts ++ [row]) series = some row := by
  have before : (facts.map fun row => (row.series, row.revision)).Nodup := by
    rw [List.map_append] at revisions
    exact (List.nodup_append.mp revisions).1
  rw [latestFact_eq_some_iff revisions]
  refine ⟨List.mem_append_right _ (List.mem_singleton_self _), same, ?_⟩
  intro other listed alike
  rcases List.mem_append.mp listed with old | new
  · obtain ⟨latest, isLatest⟩ := exists_isLatest old
    rw [alike] at isLatest
    have found := (latestFact_eq_some_iff before).mpr isLatest
    exact (isLatest.greatest other old alike).trans (next latest found).le
  · rw [List.mem_singleton.mp new]

/-- What is read at once for a batch has the latest revision of everything in it. -/
theorem latestByKey_preload
    (revisions : (facts.map fun row => (row.series, row.revision)).Nodup) {factType : String}
    {prepared : List Prepared} {quote : Prepared} (listed : quote ∈ prepared) :
    latestByKey (preload facts factType prepared) quote.entityId quote.event =
      latestFact facts (quote.entityId, factType, quote.event) := by
  have event : quote.event ∈ prepared.map Prepared.event := List.mem_map_of_mem listed
  have entity : quote.entityId ∈ prepared.map Prepared.entityId := List.mem_map_of_mem listed
  obtain ⟨first, least⟩ := Option.ne_none_iff_exists'.mp
    (mt List.min?_eq_none_iff.mp (List.ne_nil_of_mem event))
  obtain ⟨last, most⟩ := Option.ne_none_iff_exists'.mp
    (mt List.max?_eq_none_iff.mp (List.ne_nil_of_mem event))
  have from_ : first ≤ quote.event := (List.min?_eq_some_iff.mp least).2 _ event
  have to_ : quote.event ≤ last := (List.max?_eq_some_iff.mp most).2 _ event
  -- The window holds all rows of the series of a quote in the batch.
  have latest (row : FactRow) : (row ∈ (preload facts factType prepared).reverse ∧
      (row.identity.entityId = quote.entityId && row.identity.eventAt = quote.event) = true) ↔
        IsLatest facts (quote.entityId, factType, quote.event) row := by
    simp only [preload, least, most, latestRows, List.mem_reverse, List.mem_filter,
      Bool.and_eq_true, decide_eq_true_eq, List.all_eq_true, FactRow.series, and_imp]
    constructor
    · rintro ⟨⟨⟨stored, ⟨⟨type, -⟩, -⟩, -⟩, greatest⟩, same, sameEvent⟩
      refine ⟨stored, by rw [FactRow.series, same, type, sameEvent], ?_⟩
      intro other listed alike
      simp only [FactRow.series, Prod.mk.injEq] at alike
      obtain ⟨ofEntity, ofType, ofEvent⟩ := alike
      apply of_decide_eq_true (greatest other listed ofType (ofEntity ▸ entity)
        (ofEvent ▸ from_) (ofEvent ▸ to_))
      rw [ofEntity, ofType, ofEvent, same, type, sameEvent]
    · rintro ⟨stored, alike, greatest⟩
      simp only [FactRow.series, Prod.mk.injEq] at alike greatest
      obtain ⟨ofEntity, ofType, ofEvent⟩ := alike
      refine ⟨⟨⟨stored, ⟨⟨ofType, ofEntity ▸ entity⟩, ofEvent ▸ from_⟩, ofEvent ▸ to_⟩, ?_⟩,
        ofEntity, ofEvent⟩
      intro other listed _ _ _ _
      apply decide_eq_true
      intro same
      apply greatest other listed
      rw [← ofEntity, ← ofType, ← ofEvent]
      simpa using same
  apply Option.ext
  intro row
  rw [latestFact_eq_some_iff revisions, latestByKey, find?_eq_some_iff_of_unique, latest]
  intro one listed two listed' same same'
  exact ((latest one).mp ⟨listed, same⟩).unique revisions ((latest two).mp ⟨listed', same'⟩)

end Latest

section Queries

variable {α β : Type} {query : Query α} {next : α → Query β} {store after : FactStore}
  {row : FactRow} {rows : List FactRow}

theorem query_bind_of_ok {value : α} (first : query store = .ok value after) :
    (query >>= next) store = next value after := by
  simp only [bind, EStateM.bind, first]

theorem query_bind_of_error {fault : Fault} (first : query store = .error fault after) :
    (query >>= next) store = .error fault after := by
  simp only [bind, EStateM.bind, first]

theorem query_bind_ok {result : β} (returned : (query >>= next) store = .ok result after) :
    ∃ value between, query store = .ok value between ∧
      next value between = .ok result after := by
  simp only [bind, EStateM.bind] at returned
  split at returned
  · rename_i value between first
    exact ⟨value, between, first, returned⟩
  · cases returned

theorem insertFact_ok (inserted : Query.insertFact row store = .ok () after) :
    after.receipts = store.receipts ∧ after.facts = store.facts ++ [row] := by
  unfold Query.insertFact at inserted
  split at inserted
  · cases inserted
    exact ⟨rfl, rfl⟩
  · cases inserted

end Queries

theorem refuse_ok {condition : Prop} [Decidable condition] {message : String} {done : Unit} :
    refuse condition message = .ok done ↔ ¬condition := by
  unfold refuse
  split <;> simp [*]

/-- The next identity is used up by a row that has it. -/
theorem nextId_append (ids : List Int) : nextId (ids ++ [nextId ids]) = nextId ids + 1 := by
  have last : (ids ++ [nextId ids]).max? = some (nextId ids) := by
    rw [List.max?_eq_some_iff]
    refine ⟨List.mem_append_right _ (List.mem_singleton_self _), ?_⟩
    intro other listed
    rcases List.mem_append.mp listed with old | new
    · obtain ⟨most, greatest⟩ := Option.ne_none_iff_exists'.mp
        (mt List.max?_eq_none_iff.mp (List.ne_nil_of_mem old))
      have below := (List.max?_eq_some_iff.mp greatest).2 other old
      simp only [nextId, greatest, Option.getD_some]
      omega
    · exact (List.mem_singleton.mp new).le
  rw [nextId, last, Option.getD_some]

section Quotes

variable {Value : Type} {world : World Value} {batch : QuoteBatch Value}

theorem text_ok {value field result : String} {maximum : ℕ}
    (valid : text world value field maximum = .ok result) : result = value := by
  unfold text at valid
  split at valid
  · cases valid
  · cases valid
    rfl

theorem text_field {value field result : String} {maximum : ℕ} (other : String)
    (valid : text world value field maximum = .ok result) :
    text world value other maximum = .ok value := by
  unfold text at valid ⊢
  split at valid
  · cases valid
  · rename_i passes
    rw [if_neg passes]

theorem text_factType {interval : String}
    (valid : text world batch.interval "interval" 16 = .ok interval) :
    text world batch.factType "fact_type" 256 = .ok batch.factType := by
  unfold text at valid ⊢
  split at valid
  · cases valid
  · rename_i passes
    simp only [Bool.or_eq_true, decide_eq_true_eq, Bool.not_eq_true', not_or, not_lt,
      Bool.not_eq_false] at passes
    obtain ⟨⟨-, short⟩, printable⟩ := passes
    rw [if_neg]
    simp only [QuoteBatch.factType, String.toList_append, List.all_append, List.length_append,
      printable, Bool.and_true]
    simp [World.isPrintable, World.isSpace]
    omega

/-- A quote of a batch has passed its checks. -/
def Prepares (world : World Value) (batch : QuoteBatch Value) (quote : Table String Value)
    (prepared : Prepared) : Prop :=
  ∃ ticker eventAt, QuoteBatch.identify world quote = .ok (ticker, eventAt) ∧
    batch.prepareQuote world quote ticker eventAt = .ok prepared

/-- The texts that all facts of a batch have are valid. -/
structure Texts (world : World Value) (batch : QuoteBatch Value) : Prop where
  interval : ∃ interval, text world batch.interval "interval" 16 = .ok interval
  source : text world batch.source "source" 256 = .ok batch.source
  version : text world batch.sourceVersion "source_version" 256 = .ok batch.sourceVersion

variable {quote : Table String Value} {prepared : Prepared} {ticker : String} {eventAt : Value}

theorem prepareQuote_ok
    (made : batch.prepareQuote world quote ticker eventAt = .ok prepared) :
    text world ticker "entity_id" 256 = .ok ticker ∧ prepared.entityId = ticker ∧
      utc world eventAt "event_at" = .ok prepared.event ∧
      utc world batch.receivedAt "available_at" = .ok prepared.available ∧
      utc world batch.ingested "ingested_at" = .ok prepared.ingested ∧
      ¬prepared.available < prepared.event ∧ ¬prepared.ingested < prepared.available ∧
      dumps world (quotePayload quote) = .ok prepared.normalized ∧
      canonicalSha256 world (quotePayload quote) = .ok prepared.normalizedSha := by
  unfold QuoteBatch.prepareQuote at made
  obtain ⟨entityId, entity, made⟩ := bind_ok.mp made
  obtain ⟨event, eventInstant, made⟩ := bind_ok.mp made
  obtain ⟨available, received, made⟩ := bind_ok.mp made
  obtain ⟨ingested, ingestion, made⟩ := bind_ok.mp made
  obtain ⟨_, before, made⟩ := bind_ok.mp made
  obtain ⟨_, after, made⟩ := bind_ok.mp made
  obtain ⟨normalized, encoded, made⟩ := bind_ok.mp made
  obtain ⟨normalizedSha, hashed, made⟩ := bind_ok.mp made
  cases made
  obtain rfl := text_ok entity
  exact ⟨entity, rfl, eventInstant, received, ingestion, refuse_ok.mp before,
    refuse_ok.mp after, encoded, hashed⟩

/-- What becomes of a quote in view of the facts that are stored. -/
def QuoteBatch.settleAt (world : World Value) (batch : QuoteBatch Value) (receiptSha256 : Digest)
    (facts : List FactRow) (prepared : Prepared) : Outcome × Option (Int → FactRow) :=
  batch.settle world receiptSha256
    (latestFact facts (prepared.entityId, batch.factType, prepared.event)) prepared

/-- Keep what a quote has become. -/
def keepSettled (store : FactStore) : Outcome × Option (Int → FactRow) → Query Outcome
  | (outcome, none) => pure outcome
  | (outcome, some row) => do
    Query.insertFact (row (nextId (store.facts.map FactRow.id)))
    return outcome

variable {receiptSha256 : Digest} {store after : FactStore}

/-- A call for one quote keeps what the quote becomes in view of the stored facts. -/
theorem recordQuote_eq (texts : Texts world batch)
    (kept : ∃ row ∈ store.receipts, row.receiptSha256 = receiptSha256)
    (prepares : Prepares world batch quote prepared) :
    recordQuote world batch receiptSha256 quote store =
      keepSettled store (batch.settleAt world receiptSha256 store.facts prepared) store := by
  obtain ⟨ticker, eventAt, identified, made⟩ := prepares
  obtain ⟨entity, named, event, available, ingested, before, after, encoded, hashed⟩ :=
    prepareQuote_ok made
  obtain ⟨interval, intervalValid⟩ := texts.interval
  have factType := text_factType intervalValid
  have present : (store.receipts.any fun row => row.receiptSha256 = receiptSha256) = true := by
    obtain ⟨row, listed, same⟩ := kept
    exact List.any_eq_true.mpr ⟨row, listed, decide_eq_true same⟩
  simp only [recordQuote, identified, recordFact, validatedFactTimes, entity, factType,
    texts.source, texts.version, event, available, ingested, refuse, before, after, encoded, hashed,
    requireReceipt, present, bind, EStateM.bind, Except.bind, Query.check, Query.look, pure,
    EStateM.pure, Except.pure, Option.mapM_none, if_false, if_true, or_false, Option.any_none,
    Bool.false_eq_true]
  unfold QuoteBatch.settleAt QuoteBatch.settle
  rw [named]
  cases latest : (latestFact store.facts (ticker, batch.factType, prepared.event)).filter
      fun row => row.identity.normalizedSha256 = prepared.normalizedSha with
  | some row => rfl
  | none => rfl

/-- The series of the facts of a quote. -/
def QuoteBatch.series (batch : QuoteBatch Value) (prepared : Prepared) :
    String × String × Instant :=
  (prepared.entityId, batch.factType, prepared.event)

/-- The latest revision of a quote's series is the quote. -/
def Known (batch : QuoteBatch Value) (facts : List FactRow) (prepared : Prepared) : Prop :=
  ∃ row, latestFact facts (batch.series prepared) = some row ∧
    row.identity.normalizedSha256 = prepared.normalizedSha

variable {facts : List FactRow} {outcome : Outcome} {row : Int → FactRow}

theorem settleAt_congr
    (same : latestFact facts (batch.series prepared) =
      latestFact store.facts (batch.series prepared)) :
    batch.settleAt world receiptSha256 facts prepared =
      batch.settleAt world receiptSha256 store.facts prepared := by
  unfold QuoteBatch.settleAt
  unfold QuoteBatch.series at same
  rw [same]

/-- A quote that is known has no new row. -/
theorem settleAt_known_iff :
    (batch.settleAt world receiptSha256 facts prepared).2 = none ↔ Known batch facts prepared := by
  unfold QuoteBatch.settleAt QuoteBatch.settle Known QuoteBatch.series
  cases latestFact facts (prepared.entityId, batch.factType, prepared.event) with
  | none => simp
  | some latest =>
    by_cases same : latest.identity.normalizedSha256 = prepared.normalizedSha
    · simp [Option.filter, same]
    · simp [Option.filter, same]

/-- The new row of a quote is the next revision of its series. -/
theorem settleAt_some
    (settled : batch.settleAt world receiptSha256 facts prepared = (outcome, some row)) (id : Int) :
    (row id).id = id ∧ (row id).series = batch.series prepared ∧
      (row id).identity.normalizedSha256 = prepared.normalizedSha ∧
      ∀ latest ∈ latestFact facts (batch.series prepared),
        latest.revision < (row id).revision := by
  unfold QuoteBatch.settleAt QuoteBatch.settle at settled
  split at settled
  · cases settled
  · cases settled
    refine ⟨rfl, rfl, rfl, ?_⟩
    intro latest found
    unfold QuoteBatch.series at found
    simp only [FactRow.revision, Option.mem_def.mp found, Option.elim_some]
    omega

/-- The row of a new quote makes it known and leaves the other series as they are. -/
theorem insertFact_known
    (settled : batch.settleAt world receiptSha256 store.facts prepared = (outcome, some row))
    {id : Int} (inserted : Query.insertFact (row id) store = .ok () after) :
    Known batch after.facts prepared ∧
      ∀ series, batch.series prepared ≠ series →
        latestFact after.facts series = latestFact store.facts series := by
  obtain ⟨-, alike, hashed, next⟩ := settleAt_some settled id
  obtain ⟨-, appended⟩ := insertFact_ok inserted
  have revisions := after.constraints.factRevisions
  rw [appended] at revisions ⊢
  constructor
  · exact ⟨row id, latestFact_append_new revisions alike next, hashed⟩
  · intro series other
    apply latestFact_append
    intro one listed
    rw [List.mem_singleton.mp listed, alike]
    exact other

/-- Inserting the new rows of a batch at once does what one call after another does, and all
of its quotes are known afterwards. -/
theorem insertFacts_refines (texts : Texts world batch)
    {quotes : List (Table String Value)} {prepared : List Prepared}
    (each : List.Forall₂ (Prepares world batch) quotes prepared)
    (distinct : (prepared.map batch.series).Nodup) {facts : List FactRow}
    {store after : FactStore}
    (kept : ∃ row ∈ store.receipts, row.receiptSha256 = receiptSha256)
    (agree : ∀ quote ∈ prepared, latestFact facts (batch.series quote) =
      latestFact store.facts (batch.series quote))
    (inserted : Query.insertFacts (numberRows (nextId (store.facts.map FactRow.id))
      ((prepared.map (batch.settleAt world receiptSha256 facts)).filterMap Prod.snd)) store =
        .ok () after) :
    recordQuotes world batch receiptSha256 quotes store =
        .ok ((prepared.map (batch.settleAt world receiptSha256 facts)).map Prod.fst) after ∧
      after.receipts = store.receipts ∧ (∀ quote ∈ prepared, Known batch after.facts quote) ∧
      ∀ series ∉ prepared.map batch.series,
        latestFact after.facts series = latestFact store.facts series := by
  induction each generalizing store with
  | nil =>
    cases inserted
    exact ⟨rfl, rfl, by simp, fun _ _ => rfl⟩
  | @cons quote head quotes rest prepares others ih =>
    obtain ⟨fresh, distinct⟩ := List.nodup_cons.mp distinct
    have same : batch.settleAt world receiptSha256 facts head =
        batch.settleAt world receiptSha256 store.facts head :=
      settleAt_congr (agree head List.mem_cons_self)
    have agreeRest (other : Prepared) (listed : other ∈ rest) := agree other
      (List.mem_cons_of_mem _ listed)
    have first := recordQuote_eq texts kept prepares
    rw [← same] at first
    cases settled : batch.settleAt world receiptSha256 facts head with
    | mk outcome new =>
    rw [settled] at same first
    cases new with
    | none =>
      have known : Known batch store.facts head :=
        settleAt_known_iff.mp (by rw [← same])
      simp only [List.map_cons, settled, List.filterMap_cons] at inserted
      obtain ⟨recorded, receipts, knows, untouched⟩ :=
        ih distinct kept agreeRest inserted
      refine ⟨?_, receipts, ?_, ?_⟩
      · simp only [recordQuotes, query_bind_of_ok first, query_bind_of_ok recorded,
          List.map_cons, settled]
        rfl
      · intro other listed
        rcases List.mem_cons.mp listed with rfl | later
        · obtain ⟨row, latest, hashed⟩ := known
          exact ⟨row, (untouched _ fresh).trans latest, hashed⟩
        · exact knows other later
      · intro series unlisted
        exact untouched series fun listed => unlisted (List.mem_cons_of_mem _ listed)
    | some row =>
      simp only [List.map_cons, settled, List.filterMap_cons, numberRows, Query.insertFacts]
        at inserted
      obtain ⟨_, between, insertedFirst, inserted⟩ := query_bind_ok inserted
      obtain ⟨receipts, appended⟩ := insertFact_ok insertedFirst
      obtain ⟨known, untouchedFirst⟩ := insertFact_known same.symm insertedFirst
      have numbered : nextId (store.facts.map FactRow.id) + 1 =
          nextId (between.facts.map FactRow.id) := by
        rw [appended, List.map_append, List.map_singleton, (settleAt_some same.symm _).1,
          nextId_append]
      rw [numbered] at inserted
      have agreeBetween (other : Prepared) (listed : other ∈ rest) :
          latestFact facts (batch.series other) =
            latestFact between.facts (batch.series other) := by
        rw [agreeRest other listed, untouchedFirst]
        intro alike
        exact fresh (alike ▸ List.mem_map_of_mem listed)
      obtain ⟨recorded, receiptsAfter, knows, untouched⟩ :=
        ih distinct (receipts ▸ kept) agreeBetween inserted
      have kept : keepSettled store (outcome, some row) store = .ok outcome between :=
        query_bind_of_ok insertedFirst
      rw [kept] at first
      refine ⟨?_, receiptsAfter.trans receipts, ?_, ?_⟩
      · simp only [recordQuotes, query_bind_of_ok first, query_bind_of_ok recorded,
          List.map_cons, settled]
        rfl
      · intro other listed
        rcases List.mem_cons.mp listed with rfl | later
        · obtain ⟨row, latest, hashed⟩ := known
          exact ⟨row, (untouched _ fresh).trans latest, hashed⟩
        · exact knows other later
      · intro series unlisted
        rw [untouched series fun listed => unlisted (List.mem_cons_of_mem _ listed)]
        exact untouchedFirst series fun alike => unlisted (alike ▸ List.mem_cons_self)

end Quotes

section Receipts

variable {Value : Type} {world : World Value} {arguments : ReceiptArguments Value}
  {receipt : Receipt} {store after : FactStore}

/-- A receipt with the identity of a call and with its response. -/
def Receipted (world : World Value) (identity : ReceiptIdentity) (receipts : List ReceiptRow) :
    Prop :=
  ∃ row ∈ receipts, row.receiptSha256 = world.receiptSha256 identity ∧
    row.identity.responseSha256 = identity.responseSha256

theorem recordReceipt_ok (recorded : recordReceipt world arguments store = .ok receipt after) :
    ∃ identity requestJson, receiptIdentity world arguments = .ok (identity, requestJson) ∧
      receipt.receiptSha256 = world.receiptSha256 identity ∧ after.facts = store.facts ∧
      Receipted world identity after.receipts := by
  obtain ⟨⟨identity, requestJson⟩, between, checked, recorded⟩ := query_bind_ok recorded
  unfold Query.check at checked
  split at checked
  case h_2 => cases checked
  rename_i identified
  cases checked
  change keepReceipt world identity requestJson arguments.body store = .ok receipt after at recorded
  refine ⟨identity, requestJson, identified, ?_⟩
  unfold keepReceipt at recorded
  obtain ⟨existing, between, looked, recorded⟩ := query_bind_ok recorded
  cases looked
  cases found : store.receipts.find? fun row =>
      row.receiptSha256 = world.receiptSha256 identity with
  | some row =>
    simp only [found] at recorded
    split at recorded
    · cases recorded
    · rename_i same
      cases recorded
      refine ⟨rfl, rfl, row, List.mem_of_find?_eq_some found, ?_, of_not_not same⟩
      simpa using List.find?_some found
  | none =>
    simp only [found] at recorded
    obtain ⟨id, between, looked, recorded⟩ := query_bind_ok recorded
    cases looked
    obtain ⟨_, between, inserted, recorded⟩ := query_bind_ok recorded
    unfold Query.insertReceipt at inserted
    split at inserted
    · cases inserted
      cases recorded
      exact ⟨rfl, rfl, _, List.mem_append_right _ (List.mem_singleton_self _), rfl, rfl⟩
    · cases inserted

/-- A receipt that is kept is not kept again. -/
theorem recordReceipt_again {identity : ReceiptIdentity} {requestJson : String}
    (identified : receiptIdentity world arguments = .ok (identity, requestJson))
    (receipted : Receipted world identity store.receipts) :
    ∃ receipt, recordReceipt world arguments store = .ok receipt store ∧
      receipt.receiptSha256 = world.receiptSha256 identity := by
  obtain ⟨row, listed, hashed, same⟩ := receipted
  have found : store.receipts.find? (fun row =>
      row.receiptSha256 = world.receiptSha256 identity) = some row := by
    rw [find?_eq_some_iff_of_unique]
    · exact ⟨listed, decide_eq_true hashed⟩
    · intro one listed two listed' hashed hashed'
      apply List.inj_on_of_nodup_map store.constraints.receiptHashes listed listed'
      rw [of_decide_eq_true hashed, of_decide_eq_true hashed']
  refine ⟨⟨identity, row.id, world.receiptSha256 identity, true⟩, ?_, rfl⟩
  simp only [recordReceipt, Query.check, identified, keepReceipt, Query.look, found, same, bind,
    EStateM.bind, ne_eq, not_true_eq_false, if_false, pure, EStateM.pure]

end Receipts

section Batches

variable {Value : Type} {world : World Value} {batch : QuoteBatch Value}

/-- The ticker and the instant of a quote that has both. -/
def quoteIdentity (world : World Value) (quote : Table String Value) : Option (String × Instant) :=
  ((quote.lookup "ticker").bind world.text?).bind fun ticker =>
    ((quote.lookup "event_at").bind world.utc?).map fun event => (ticker, event)

theorem Prepares.identity {quote : Table String Value} {prepared : Prepared}
    (prepares : Prepares world batch quote prepared) :
    quoteIdentity world quote = some (prepared.entityId, prepared.event) := by
  obtain ⟨ticker, eventAt, identified, made⟩ := prepares
  obtain ⟨-, named, event, -⟩ := prepareQuote_ok made
  unfold QuoteBatch.identify at identified
  split at identified
  · cases identified
  · split at identified
    · rename_i read looked
      cases identified
      unfold utc at event
      split at event
      · rename_i read'
        cases event
        simp [quoteIdentity, read, looked, read', named]
      · cases event
    · cases identified

/-- Distinct quotes have facts of distinct series. -/
theorem series_nodup {quotes : List (Table String Value)} {prepared : List Prepared}
    (each : List.Forall₂ (Prepares world batch) quotes prepared)
    (distinct : (quotes.filterMap (quoteIdentity world)).Nodup) :
    (prepared.map batch.series).Nodup := by
  have identities : quotes.filterMap (quoteIdentity world) =
      prepared.map fun quote => (quote.entityId, quote.event) := by
    induction each with
    | nil => rfl
    | cons prepares _ ih =>
      rw [List.filterMap_cons, prepares.identity, List.map_cons]
      dsimp only
      rw [ih (distinct.sublist (List.Sublist.filterMap _
        (List.sublist_cons_self _ _)))]
  have split : prepared.map batch.series =
      (prepared.map fun quote => (quote.entityId, quote.event)).map
        fun key => (key.1, batch.factType, key.2) := by
    rw [List.map_map]
    rfl
  rw [identities] at distinct
  rw [split]
  apply distinct.map
  rintro ⟨one, first⟩ ⟨two, second⟩ same
  simp only [Prod.mk.injEq, true_and] at same
  rw [same.1, same.2]

theorem prepareQuotes_ok {seen : List (String × Value)} {quotes : List (Table String Value)}
    {prepared : List Prepared} (made : batch.prepareQuotes world seen quotes = .ok prepared) :
    List.Forall₂ (Prepares world batch) quotes prepared := by
  induction quotes generalizing seen prepared with
  | nil =>
    cases made
    exact .nil
  | cons quote rest ih =>
    obtain ⟨⟨ticker, eventAt⟩, identified, made⟩ := bind_ok.mp made
    obtain ⟨_, -, made⟩ := bind_ok.mp made
    obtain ⟨first, passed, made⟩ := bind_ok.mp made
    obtain ⟨others, passedRest, made⟩ := bind_ok.mp made
    cases made
    exact .cons ⟨ticker, eventAt, identified, passed⟩ (ih passedRest)

theorem prepare_ok {prepared : List Prepared} (made : batch.prepare world = .ok prepared) :
    Texts world batch ∧ List.Forall₂ (Prepares world batch) batch.quotes prepared := by
  obtain ⟨interval, valid, made⟩ := bind_ok.mp made
  obtain ⟨source, sourceValid, made⟩ := bind_ok.mp made
  obtain ⟨version, versionValid, made⟩ := bind_ok.mp made
  exact ⟨⟨⟨interval, valid⟩, text_field _ sourceValid, text_field _ versionValid⟩,
    prepareQuotes_ok made⟩

/-- What a batch reads at once is what its calls read one after another. -/
theorem settle_preload {facts : List FactRow} {prepared : List Prepared} {receiptSha256 : Digest}
    (revisions : (facts.map fun row => (row.series, row.revision)).Nodup) :
    (prepared.map fun quote => batch.settle world receiptSha256
      (latestByKey (preload facts batch.factType prepared) quote.entityId quote.event) quote) =
      prepared.map (batch.settleAt world receiptSha256 facts) := by
  apply List.map_congr_left
  intro quote listed
  rw [latestByKey_preload revisions listed]
  rfl

/-- A transaction that returns has done what one call after another does, and does nothing
when it is done again. -/
theorem keep_refines {prepared : List Prepared} {store after : FactStore} {result : BatchResult}
    (texts : Texts world batch)
    (each : List.Forall₂ (Prepares world batch) batch.quotes prepared)
    (distinct : (batch.quotes.filterMap (quoteIdentity world)).Nodup)
    (kept : batch.keep world prepared store = .ok result after) :
    ∃ receipt outcomes, recordOneByOne world batch store = .ok (receipt, outcomes) after ∧
      result.receiptSha256 = receipt.receiptSha256 ∧
      result.factSha256s = outcomes.map Outcome.factSha256 ∧
      ∃ again, batch.keep world prepared after = .ok again after := by
  obtain ⟨receipt, between, recorded, kept⟩ := query_bind_ok kept
  obtain ⟨identity, requestJson, identified, hashed, facts, receipted⟩ :=
    recordReceipt_ok recorded
  obtain ⟨loaded, _, looked, kept⟩ := query_bind_ok kept
  cases looked
  obtain ⟨firstId, _, looked, kept⟩ := query_bind_ok kept
  cases looked
  obtain ⟨_, last, inserted, kept⟩ := query_bind_ok kept
  cases kept
  rw [settle_preload between.constraints.factRevisions] at inserted ⊢
  have series := series_nodup each distinct
  have present : ∃ row ∈ between.receipts, row.receiptSha256 = receipt.receiptSha256 := by
    obtain ⟨row, listed, same, -⟩ := receipted
    exact ⟨row, listed, same.trans hashed.symm⟩
  obtain ⟨outcomes, receipts, known, -⟩ :=
    insertFacts_refines texts each series present (fun _ _ => rfl) inserted
  refine ⟨receipt, _, ?_, rfl, rfl, ?_⟩
  · simp only [recordOneByOne, query_bind_of_ok recorded, query_bind_of_ok outcomes]
    rfl
  · obtain ⟨repeated, replayed, -⟩ := recordReceipt_again identified (receipts ▸ receipted)
    have nothing : (prepared.map (batch.settleAt world repeated.receiptSha256
        after.facts)).filterMap Prod.snd = [] := by
      apply List.filterMap_eq_nil_iff.mpr
      intro settled listed
      obtain ⟨quote, quoteListed, rfl⟩ := List.mem_map.mp listed
      exact settleAt_known_iff.mpr (known quote quoteListed)
    unfold QuoteBatch.keep
    simp only [bind, EStateM.bind, replayed, Query.look,
      settle_preload after.constraints.factRevisions, nothing, numberRows, Query.insertFacts, pure,
      EStateM.pure]
    exact ⟨_, rfl⟩

/-- A batch of distinct quotes raises and leaves the store as it was, or it leaves the receipt
and the facts that one call after another does, returns their hashes and changes nothing when
it is kept again. -/
theorem recordIntradayQuoteBatch_refines (world : World Value) (batch : QuoteBatch Value)
    (store : FactStore) (distinct : (batch.quotes.filterMap (quoteIdentity world)).Nodup) :
    (∃ fault, recordIntradayQuoteBatch world batch store = .error fault store) ∨
      ∃ result after receipt outcomes,
        recordIntradayQuoteBatch world batch store = .ok result after ∧
        recordOneByOne world batch store = .ok (receipt, outcomes) after ∧
        result.receiptSha256 = receipt.receiptSha256 ∧
        result.factSha256s = outcomes.map Outcome.factSha256 ∧
        ∃ again, recordIntradayQuoteBatch world batch after = .ok again after := by
  cases made : batch.prepare world with
  | error fault =>
    left
    refine ⟨fault, query_bind_of_error ?_⟩
    simp only [Query.check, made]
  | ok prepared =>
    obtain ⟨texts, each⟩ := prepare_ok made
    have called (store : FactStore) : recordIntradayQuoteBatch world batch store =
        Query.transaction (batch.keep world prepared) store := by
      apply query_bind_of_ok
      simp only [Query.check, made]
    cases kept : batch.keep world prepared store with
    | error fault after =>
      left
      exact ⟨fault, by rw [called, Query.transaction, kept]⟩
    | ok result after =>
      right
      obtain ⟨receipt, outcomes, oneByOne, receiptHash, factHashes, again, keptAgain⟩ :=
        keep_refines texts each distinct kept
      refine ⟨result, after, receipt, outcomes, ?_, oneByOne, receiptHash, factHashes, again, ?_⟩
      · rw [called, Query.transaction, kept]
      · rw [called, Query.transaction, keptAgain]

end Batches

/-- Values are texts and instants; hashes are the texts that they are taken of. -/
def plainWorld : World (String ⊕ Int) where
  printable _ := true
  white _ := false
  text? := Sum.getLeft?
  utc? := Sum.getRight?
  same := fun one two => one == two
  json _ document := some (",".intercalate (document.entries.map fun entry =>
    entry.1 ++ ":" ++ entry.2.elim id toString))
  textSha256 := id
  bodySha256 body := toString body
  receiptSha256 identity := identity.source ++ "/" ++ toString identity.receivedAt ++ "/" ++
    identity.requestSha256 ++ "/" ++ identity.responseSha256
  factSha256 identity := identity.entityId ++ "/" ++ toString identity.eventAt ++ "/" ++
    toString identity.revision ++ "/" ++ identity.normalizedSha256 ++ "/" ++
    identity.receiptSha256

def barAt (ticker : String) (eventAt close : Int) : Table String (String ⊕ Int) :=
  List.toAList [⟨"ticker", .inl ticker⟩, ⟨"event_at", .inr eventAt⟩, ⟨"open", .inr 99⟩,
    ⟨"high", .inr 101⟩, ⟨"low", .inr 98⟩, ⟨"close", .inr close⟩, ⟨"volume", .inr 10000⟩]

/-- Two bars of one ticker. -/
def fiveMinutes (received close : Int) : QuoteBatch (String ⊕ Int) where
  source := "test"
  endpoint := "/quotes"
  request := ∅
  requestedAt := .inr 600
  receivedAt := .inr received
  contentType := "application/json"
  body := [123, 125]
  quotes := [barAt "SPY" 300 100, barAt "SPY" 600 close]
  interval := "5m"
  sourceVersion := "v1"
  licenseClass := "public"
  ingestedAt := none

def emptyFacts : FactStore := ⟨[], [], by decide⟩

theorem fiveMinutes_refines :
    (∃ fault, recordIntradayQuoteBatch plainWorld (fiveMinutes 601 100) emptyFacts =
        .error fault emptyFacts) ∨
      ∃ result after receipt outcomes,
        recordIntradayQuoteBatch plainWorld (fiveMinutes 601 100) emptyFacts = .ok result after ∧
        recordOneByOne plainWorld (fiveMinutes 601 100) emptyFacts =
          .ok (receipt, outcomes) after ∧
        result.receiptSha256 = receipt.receiptSha256 ∧
        result.factSha256s = outcomes.map Outcome.factSha256 ∧
        ∃ again, recordIntradayQuoteBatch plainWorld (fiveMinutes 601 100) after =
          .ok again after :=
  recordIntradayQuoteBatch_refines plainWorld (fiveMinutes 601 100) emptyFacts (by decide)

/-- A later batch revises the bar that changed. -/
example : (match (do
      let _ ← recordIntradayQuoteBatch plainWorld (fiveMinutes 601 100)
      recordIntradayQuoteBatch plainWorld (fiveMinutes 661 101)) emptyFacts with
    | .ok _ after => after.facts.map fun row => (row.id, row.identity.eventAt, row.revision)
    | .error _ _ => []) = [(1, 300, 1), (2, 600, 1), (3, 600, 2)] := by decide +kernel

end TradingEngine.Facts
