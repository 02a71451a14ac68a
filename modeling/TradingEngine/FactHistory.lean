import TradingEngine.QuoteBatches

/-!
# The history of facts

A fact is recorded by a call of its own or in a batch, and an event of a security is a fact too.
In whatever order the calls are made, every revision of a series after its first names the one
before it by its hash. What was known by a cutoff is read from the facts that were available
and ingested by then, so facts that are ingested later do not change it.
-/

namespace TradingEngine.Facts

open KeyedTables Runs

def SECURITY_EVENT_TYPES : List String :=
  ["listing", "delisting", "symbol_change", "share_class", "merger"]

/-- The facts that were available and ingested by a cutoff. -/
def visibleFacts (facts : List FactRow) (cutoff : Instant) : List FactRow :=
  facts.filter fun row => row.identity.availableAt ≤ cutoff && row.identity.ingestedAt ≤ cutoff

/-- The order of an answer. -/
def inOrder (one two : FactRow) : Bool :=
  decide (toLex (one.identity.entityId, toLex (one.identity.factType, one.identity.eventAt)) ≤
    toLex (two.identity.entityId, toLex (two.identity.factType, two.identity.eventAt)))

/-- The latest revision of every series among them, in order. -/
def factsAsKnown (facts : List FactRow) (cutoff : Instant) : List FactRow :=
  ((visibleFacts facts cutoff).filter fun row => (visibleFacts facts cutoff).all fun other =>
    decide (other.series = row.series → other.revision ≤ row.revision)).mergeSort inOrder

section Calls

variable {Value : Type} (world : World Value)

def recordSecurityEvent (eventType : String) (fact : FactArguments Value) : Query Outcome := do
  Query.check (refuse (eventType ∉ SECURITY_EVENT_TYPES ∨ fact.securityId.getD "" = "")
    "security event type or security_id is invalid")
  Query.check (refuse ((fact.payload.lookup "event_type").bind world.text? ≠ some eventType)
    "security event payload is invalid")
  recordFact world { fact with factType := "security." ++ eventType }

inductive FactCall (Value : Type) where
  | receipt (arguments : ReceiptArguments Value)
  | fact (arguments : FactArguments Value)
  | securityEvent (eventType : String) (arguments : FactArguments Value)
  | quoteBatch (batch : QuoteBatch Value)

/-- The store that a query leaves. -/
def Query.left {α : Type} (query : Query α) (store : FactStore) : FactStore :=
  match query store with
  | .ok _ after => after
  | .error _ after => after

def FactCall.step (store : FactStore) : FactCall Value → FactStore
  | .receipt arguments => (recordReceipt world arguments).left store
  | .fact arguments => (recordFact world arguments).left store
  | .securityEvent eventType arguments =>
    (recordSecurityEvent world eventType arguments).left store
  | .quoteBatch batch => (recordIntradayQuoteBatch world batch).left store

/-- When the facts of a call are ingested. -/
def FactCall.ingestedAt : FactCall Value → Option Instant
  | .receipt _ => none
  | .fact arguments => world.utc? arguments.ingestedAt
  | .securityEvent _ arguments => world.utc? arguments.ingestedAt
  | .quoteBatch batch => world.utc? batch.ingested

end Calls

variable {Value : Type} {world : World Value} {store after : FactStore} {facts : List FactRow}
  {row : FactRow} {α β : Type} {query : Query α} {next : α → Query β} {ingested : Option Instant}

/-- A row that may follow some facts. -/
structure Follows (world : World Value) (ingested : Option Instant) (facts : List FactRow)
    (row : FactRow) : Prop where
  revision : row.revision = (latestFact facts row.series).elim 1 fun latest => latest.revision + 1
  previous : row.identity.previousFactSha256 =
    (latestFact facts row.series).map FactRow.factSha256
  changed : ((latestFact facts row.series).filter fun latest =>
    latest.identity.normalizedSha256 = row.identity.normalizedSha256) = none
  hashed : row.factSha256 = world.factSha256 row.identity
  ordered : row.identity.eventAt ≤ row.identity.availableAt ∧
    row.identity.availableAt ≤ row.identity.ingestedAt
  ingested : some row.identity.ingestedAt = ingested

/-- A query adds rows that may follow the facts before it. -/
def Adds (world : World Value) (ingested : Option Instant) (store : FactStore)
    (query : Query α) : Prop :=
  ∃ rows, (query.left store).facts = store.facts ++ rows ∧
    ∀ row ∈ rows, Follows world ingested store.facts row

theorem adds_nothing (same : (query.left store).facts = store.facts) :
    Adds world ingested store query :=
  ⟨[], by rw [same, List.append_nil], by simp⟩

theorem adds_fact {outcome : Outcome} (follows : Follows world ingested store.facts row) :
    Adds world ingested store (Query.insertFact row >>= fun _ => pure outcome) := by
  by_cases meets : Constraints store.receipts (store.facts ++ [row])
  · refine ⟨[row], ?_, by simpa using follows⟩
    simp [Query.left, Query.insertFact, meets, Bind.bind, EStateM.bind, pure, EStateM.pure]
  · apply adds_nothing
    simp [Query.left, Query.insertFact, meets, Bind.bind, EStateM.bind]

/-- A query that leaves the store as it is may come first. -/
theorem Adds.read (idle : query.left store = store)
    (adds : ∀ value, query store = .ok value store → Adds world ingested store (next value)) :
    Adds world ingested store (query >>= next) := by
  cases result : query store with
  | error fault after =>
    apply adds_nothing
    have same : after = store := by simpa only [Query.left, result] using idle
    simp only [Query.left, query_bind_of_error result, same]
  | ok value after =>
    have same : after = store := by simpa only [Query.left, result] using idle
    rw [same] at result
    obtain ⟨rows, extended, follow⟩ := adds value result
    refine ⟨rows, ?_, follow⟩
    rw [← extended, Query.left, query_bind_of_ok result, Query.left]

theorem left_check (result : Except Fault α) : (Query.check result).left store = store := by
  cases result <;> rfl

theorem check_ok {result : Except Fault α} {value : α}
    (checked : Query.check result store = .ok value after) : result = .ok value := by
  unfold Query.check at checked
  split at checked
  · cases checked
    rfl
  · cases checked

theorem left_requireReceipt (receiptSha256 : Digest) :
    (requireReceipt receiptSha256).left store = store := by
  unfold requireReceipt Query.left
  simp only [Query.look, Bind.bind, EStateM.bind]
  split <;> rename_i h <;> split at h <;> cases h <;> rfl

theorem recordReceipt_adds (arguments : ReceiptArguments Value) :
    Adds world ingested store (recordReceipt world arguments) := by
  refine .read (left_check _) fun identified _ => .read rfl fun existing _ => ?_
  split
  · apply adds_nothing
    split <;> rfl
  · refine .read rfl fun id _ => adds_nothing ?_
    simp only [Query.left, Query.insertReceipt, Bind.bind, EStateM.bind]
    split_ifs <;> rfl

theorem utc_ok {value : Value} {field : String} {instant : Instant}
    (read : utc world value field = .ok instant) : world.utc? value = some instant := by
  unfold utc at read
  split at read
  · cases read
    assumption
  · cases read

theorem validatedFactTimes_ok {arguments : FactArguments Value} {times : FactTimes}
    (valid : validatedFactTimes world arguments = .ok times) :
    times.event ≤ times.available ∧ times.available ≤ times.ingested ∧
      world.utc? arguments.ingestedAt = some times.ingested := by
  obtain ⟨_, _, valid⟩ := bind_ok.mp valid
  obtain ⟨_, _, valid⟩ := bind_ok.mp valid
  obtain ⟨_, _, valid⟩ := bind_ok.mp valid
  obtain ⟨_, _, valid⟩ := bind_ok.mp valid
  obtain ⟨event, _, valid⟩ := bind_ok.mp valid
  obtain ⟨available, _, valid⟩ := bind_ok.mp valid
  obtain ⟨ingested, read, valid⟩ := bind_ok.mp valid
  obtain ⟨published, _, valid⟩ := bind_ok.mp valid
  obtain ⟨_, consistent, valid⟩ := bind_ok.mp valid
  obtain ⟨_, late, valid⟩ := bind_ok.mp valid
  cases valid
  exact ⟨not_lt.mp fun early => refuse_ok.mp consistent (.inl early),
    not_lt.mp (refuse_ok.mp late), utc_ok read⟩

theorem recordFact_adds (arguments : FactArguments Value) :
    Adds world (world.utc? arguments.ingestedAt) store (recordFact world arguments) := by
  refine .read (left_check _) fun times checked => .read (left_requireReceipt _) fun _ _ => ?_
  refine .read (left_check _) fun normalized _ => .read (left_check _) fun normalizedSha _ => ?_
  refine .read rfl fun latest looked => ?_
  cases looked
  obtain ⟨available, ingested, read⟩ := validatedFactTimes_ok (check_ok checked)
  split
  · exact adds_nothing rfl
  · rename_i new
    exact .read rfl fun id _ => adds_fact ⟨rfl, rfl, new, rfl, ⟨available, ingested⟩, read.symm⟩

theorem recordSecurityEvent_adds (eventType : String) (arguments : FactArguments Value) :
    Adds world (world.utc? arguments.ingestedAt) store
      (recordSecurityEvent world eventType arguments) := by
  refine .read (left_check _) fun _ _ => .read (left_check _) fun _ _ => ?_
  exact recordFact_adds { arguments with factType := "security." ++ eventType }

/-- The new row of a prepared quote follows the facts that it was settled in view of. -/
theorem settleAt_follows {batch : QuoteBatch Value} {quote : Table String Value}
    {prepared : Prepared} {receiptSha256 : Digest} {outcome : Outcome} {new : Int → FactRow}
    (prepares : Prepares world batch quote prepared)
    (settled : batch.settleAt world receiptSha256 facts prepared = (outcome, some new)) (id : Int) :
    Follows world (world.utc? batch.ingested) facts (new id) := by
  obtain ⟨ticker, eventAt, -, made⟩ := prepares
  obtain ⟨-, -, -, -, read, available, ingested, -⟩ := prepareQuote_ok made
  unfold QuoteBatch.settleAt QuoteBatch.settle at settled
  split at settled
  · cases settled
  · rename_i unknown
    cases settled
    exact ⟨rfl, rfl, unknown, rfl, ⟨not_lt.mp available, not_lt.mp ingested⟩, (utc_ok read).symm⟩

theorem insertFacts_ok {rows : List FactRow} (inserted : Query.insertFacts rows store = .ok () after) :
    after.facts = store.facts ++ rows := by
  induction rows generalizing store with
  | nil =>
    cases inserted
    exact (List.append_nil _).symm
  | cons row rest ih =>
    obtain ⟨_, between, first, others⟩ := query_bind_ok inserted
    rw [ih others, (insertFact_ok first).2, List.append_assoc, List.singleton_append]

theorem mem_numberRows {first : Int} {rows : List (Int → FactRow)}
    (listed : row ∈ numberRows first rows) : ∃ new ∈ rows, ∃ id, row = new id := by
  induction rows generalizing first with
  | nil => cases listed
  | cons new rest ih =>
    rcases List.mem_cons.mp listed with rfl | later
    · exact ⟨new, List.mem_cons_self, first, rfl⟩
    · obtain ⟨other, found, id, same⟩ := ih later
      exact ⟨other, List.mem_cons_of_mem _ found, id, same⟩

theorem recordIntradayQuoteBatch_adds (batch : QuoteBatch Value) :
    Adds world (world.utc? batch.ingested) store (recordIntradayQuoteBatch world batch) := by
  refine .read (left_check _) fun prepared checked => ?_
  obtain ⟨-, each⟩ := prepare_ok (check_ok checked)
  cases kept : batch.keep world prepared store with
  | error fault after =>
    apply adds_nothing
    simp only [Query.left, Query.transaction, kept]
  | ok result after =>
    obtain ⟨receipt, between, recorded, done⟩ := query_bind_ok kept
    obtain ⟨-, -, -, -, facts, -⟩ := recordReceipt_ok recorded
    obtain ⟨loaded, _, looked, done⟩ := query_bind_ok done
    cases looked
    obtain ⟨firstId, _, looked, done⟩ := query_bind_ok done
    cases looked
    obtain ⟨_, last, inserted, done⟩ := query_bind_ok done
    cases done
    rw [settle_preload between.constraints.factRevisions, facts] at inserted
    have extended := insertFacts_ok inserted
    rw [facts] at extended
    have left : ((batch.keep world prepared).transaction.left store).facts = after.facts := by
      simp only [Query.left, Query.transaction, kept]
    refine ⟨_, left.trans extended, ?_⟩
    intro row listed
    obtain ⟨new, found, id, rfl⟩ := mem_numberRows listed
    obtain ⟨⟨outcome, _⟩, settled, rfl⟩ := List.mem_filterMap.mp found
    obtain ⟨quote, quoted, same⟩ := List.mem_map.mp settled
    obtain ⟨index, inside, rfl⟩ := List.getElem_of_mem quoted
    exact settleAt_follows (each.get (each.length_eq ▸ inside) inside) same id

theorem step_adds (store : FactStore) (call : FactCall Value) :
    ∃ rows, (call.step world store).facts = store.facts ++ rows ∧
      ∀ row ∈ rows, Follows world (call.ingestedAt world) store.facts row := by
  cases call with
  | receipt arguments => exact recordReceipt_adds arguments
  | fact arguments => exact recordFact_adds arguments
  | securityEvent eventType arguments => exact recordSecurityEvent_adds eventType arguments
  | quoteBatch batch => exact recordIntradayQuoteBatch_adds batch

/-- A fact is the first of its series or names the revision before it. -/
def Linked (world : World Value) (facts : List FactRow) (row : FactRow) : Prop :=
  row.factSha256 = world.factSha256 row.identity ∧
    (row.identity.eventAt ≤ row.identity.availableAt ∧
      row.identity.availableAt ≤ row.identity.ingestedAt) ∧
    (row.revision = 1 ∧ row.identity.previousFactSha256 = none ∨
      ∃ before ∈ facts, before.series = row.series ∧ row.revision = before.revision + 1 ∧
        row.identity.previousFactSha256 = some before.factSha256 ∧
        before.identity.normalizedSha256 ≠ row.identity.normalizedSha256)

theorem Follows.linked (follows : Follows world ingested store.facts row) (rows : List FactRow) :
    Linked world (store.facts ++ rows) row := by
  refine ⟨follows.hashed, follows.ordered, ?_⟩
  cases found : latestFact store.facts row.series with
  | none => exact .inl ⟨by rw [follows.revision, found]; rfl, by rw [follows.previous, found]; rfl⟩
  | some latest =>
    have isLatest := (latestFact_eq_some_iff store.constraints.factRevisions).mp found
    exact .inr ⟨latest, List.mem_append_left _ isLatest.stored, isLatest.alike,
      by rw [follows.revision, found]; rfl, by rw [follows.previous, found]; rfl,
      fun same => Option.filter_eq_none_iff.mp follows.changed latest found (decide_eq_true same)⟩

/-- Whatever is called in whatever order, facts are chained by their hashes. -/
theorem facts_linked (world : World Value) (calls : List (FactCall Value)) :
    ∀ reached ∈ states (FactCall.step world) emptyFacts calls,
      ∀ row ∈ reached.facts, Linked world reached.facts row := by
  refine states_invariant (fun store : FactStore => ∀ row ∈ store.facts,
    Linked world store.facts row) ?_ (by simp [emptyFacts]) calls
  intro store call linked row listed
  obtain ⟨rows, extended, follow⟩ := step_adds store call
  rw [extended] at listed ⊢
  rcases List.mem_append.mp listed with old | new
  · obtain ⟨hashed, ordered, first | ⟨before, stored, alike⟩⟩ := linked row old
    · exact ⟨hashed, ordered, .inl first⟩
    · exact ⟨hashed, ordered, .inr ⟨before, List.mem_append_left _ stored, alike⟩⟩
  · exact (follow row new).linked rows

/-- A batch of quotes leaves a row, and it is linked. -/
theorem fiveMinutes_linked :
    ∃ row ∈ (FactCall.step plainWorld emptyFacts (.quoteBatch (fiveMinutes 601 100))).facts,
      Linked plainWorld
        (FactCall.step plainWorld emptyFacts (.quoteBatch (fiveMinutes 601 100))).facts row := by
  have placed : 0 < (FactCall.step plainWorld emptyFacts
      (.quoteBatch (fiveMinutes 601 100))).facts.length := by decide +kernel
  obtain ⟨row, listed⟩ := List.exists_mem_of_length_pos placed
  exact ⟨row, listed, facts_linked _ [.quoteBatch _] _ (.tail _ (.head _)) row listed⟩

/-- A call that ingests after a cutoff does not change what was known by then. -/
theorem step_factsAsKnown {cutoff : Instant} (store : FactStore) {call : FactCall Value}
    (later : ∀ ingested ∈ call.ingestedAt world, cutoff < ingested) :
    factsAsKnown (call.step world store).facts cutoff = factsAsKnown store.facts cutoff := by
  obtain ⟨rows, extended, follow⟩ := step_adds store call
  have unseen : visibleFacts rows cutoff = [] := by
    refine List.filter_eq_nil_iff.mpr fun row listed => ?_
    have late := later _ (follow row listed).ingested.symm
    simpa using fun _ => late
  have visible : visibleFacts (call.step world store).facts cutoff =
      visibleFacts store.facts cutoff := by
    rw [extended, visibleFacts, List.filter_append]
    exact (congrArg _ unseen).trans (List.append_nil _)
  rw [factsAsKnown, visible, factsAsKnown]

/-- What was known by a cutoff stays as it was when facts are ingested later. -/
theorem factsAsKnown_stay {cutoff : Instant} (store : FactStore) {calls : List (FactCall Value)}
    (later : ∀ call ∈ calls, ∀ ingested ∈ call.ingestedAt world, cutoff < ingested) :
    ∀ reached ∈ states (FactCall.step world) store calls,
      factsAsKnown reached.facts cutoff = factsAsKnown store.facts cutoff := by
  induction calls generalizing store with
  | nil =>
    intro reached member
    rw [List.mem_singleton.mp member]
  | cons call rest ih =>
    intro reached member
    rcases List.mem_cons.mp member with rfl | further
    · rfl
    · rw [ih _ (fun other listed => later other (List.mem_cons_of_mem _ listed)) reached further]
      exact step_factsAsKnown store (later call List.mem_cons_self)

/-- A later batch does not change what was known before it. -/
theorem fiveMinutes_known :
    factsAsKnown (FactCall.step plainWorld (FactCall.step plainWorld emptyFacts
      (.quoteBatch (fiveMinutes 601 100))) (.quoteBatch (fiveMinutes 661 101))).facts 601 =
      factsAsKnown (FactCall.step plainWorld emptyFacts
        (.quoteBatch (fiveMinutes 601 100))).facts 601 :=
  have later : ∀ call ∈ [FactCall.quoteBatch (fiveMinutes 661 101)],
      ∀ ingested ∈ call.ingestedAt plainWorld, 601 < ingested := by decide +kernel
  factsAsKnown_stay _ later _ (.tail _ (.head _))

end TradingEngine.Facts
