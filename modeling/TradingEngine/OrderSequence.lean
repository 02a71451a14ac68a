import TradingEngine.KeyedTables

/-!
# The sequence of order ids

Order ids come from a sequence of the database that is created once, above every order that is
there, and is never set back. Anything may be inserted into the table under any id, and the
clean-up of a rerun deletes orders, so before an id is returned it is compared with the largest
one in the table: a sequence that has fallen behind is replaced by one above it.
-/

namespace TradingEngine.OrderIds

open KeyedTables

/-- The largest value of a 64-bit column and of a sequence. -/
def bigintMax : ℤ := 2 ^ 63 - 1

inductive SequenceError where
  | belowMinimum | aboveMaximum | exhausted

/-- What the clean-up of a rerun reads of an order. -/
structure OrderRow where
  signalDate : ℤ
  /-- The order belongs to a portfolio outside the account engine. -/
  legacy : Bool
  /-- Another table refers to the order. -/
  isProtected : Bool

/-- The table of orders and the next value of the sequence, where it exists. -/
structure Store where
  orders : Table ℤ OrderRow
  sequence : Option ℤ

/-- `COALESCE(MAX(id), 0)`. -/
def Store.maximumId (store : Store) : ℤ := store.orders.keys.max?.getD 0

/-- `CREATE OR REPLACE SEQUENCE`. The start is within the default bounds of a sequence. -/
def Store.createSequence (store : Store) (start : ℤ) : Except SequenceError Store :=
  if start < 1 then .error .belowMinimum
  else if bigintMax < start then .error .aboveMaximum
  else .ok { store with sequence := some start }

def Store.nextval (store : Store) (next : ℤ) : Except SequenceError (ℤ × Store) :=
  if bigintMax < next then .error .exhausted
  else .ok (next, { store with sequence := some (next + 1) })

/-- Create the order sequence once, starting above every order id. The second component is the
next value of the sequence. -/
def bootstrapOrderSequence (store : Store) : Except SequenceError (Store × ℤ) :=
  match store.sequence with
  | some next => .ok (store, next)
  | none => do
    let store' ← store.createSequence (store.maximumId + 1)
    return (store', store.maximumId + 1)

/-- Return a never-reused order id. What was written before an error stays. -/
def nextOrderId (store : Store) : Except SequenceError ℤ × Store :=
  match bootstrapOrderSequence store with
  | .error error => (.error error, store)
  | .ok (store, next) =>
    let maximum := store.maximumId
    match store.nextval next with
    | .error error => (.error error, store)
    | .ok (candidate, store) =>
      if maximum < candidate then (.ok candidate, store)
      else
        match store.createSequence (maximum + 1) with
        | .error error => (.error error, store)
        | .ok store =>
          match store.nextval (maximum + 1) with
          | .error error => (.error error, store)
          | .ok (candidate, store) => (.ok candidate, store)

/-- Delete the orders of a date that nothing refers to. -/
def rerunCleanup (store : Store) (day : ℤ) : Store :=
  { store with
    orders := filterRows (fun _ row =>
      !(decide (row.signalDate = day) && row.legacy && !row.isProtected)) store.orders }

/-- Insert an order under any id. The id is the primary key of the table. -/
def insertOrder (store : Store) (id : ℤ) (row : OrderRow) : Store :=
  if id ∈ store.orders then store else { store with orders := store.orders.insert id row }

/-- Open the database again. Its tables and its sequence are as they were, and the schema is
initialised, which creates a sequence only where there is none. -/
def reopen (store : Store) : Store :=
  match bootstrapOrderSequence store with
  | .error _ => store
  | .ok (store, _) => store

inductive Step where
  | call
  | insert (id : ℤ) (row : OrderRow)
  | cleanup (day : ℤ)
  | reopen

/-- An id that was returned, and the ids in the table when it was asked for. -/
structure Issued where
  id : ℤ
  present : List ℤ

def issueOne (store : Store) : List Issued × Store :=
  match nextOrderId store with
  | (.ok id, after) => ([⟨id, store.orders.keys⟩], after)
  | (.error _, after) => ([], after)

def advance (store : Store) : Step → List Issued × Store
  | .call => issueOne store
  | .insert id row => ([], insertOrder store id row)
  | .cleanup day => ([], rerunCleanup store day)
  | .reopen => ([], reopen store)

/-- The ids that a run returns, in order. -/
def issued : Store → List Step → List Issued
  | _, [] => []
  | store, step :: rest => (advance store step).1 ++ issued (advance store step).2 rest

/-- The sequence of a later store is not behind that of an earlier one. -/
def Ahead (before after : Store) : Prop :=
  ∀ next, before.sequence = some next → ∃ later, after.sequence = some later ∧ next ≤ later

theorem le_maximumId {store : Store} {id : ℤ} (present : id ∈ store.orders.keys) :
    id ≤ store.maximumId := by
  cases found : store.orders.keys.max? with
  | none =>
    rw [List.max?_eq_none_iff.mp found] at present
    cases present
  | some maximum =>
    rw [Store.maximumId, found]
    exact (List.max?_eq_some_iff.mp found).2 id present

theorem createSequence_ok {store after : Store} {start : ℤ}
    (created : store.createSequence start = .ok after) :
    after = { store with sequence := some start } := by
  unfold Store.createSequence at created
  split at created
  · cases created
  · split at created
    · cases created
    · exact (Except.ok.inj created).symm

/-- Bootstrapping keeps the orders, and a sequence that exists. -/
theorem bootstrap_spec {store after : Store} {next : ℤ}
    (booted : bootstrapOrderSequence store = .ok (after, next)) :
    after = { store with sequence := some next } ∧
      ∀ known, store.sequence = some known → known = next := by
  cases found : store.sequence with
  | some known =>
    rw [bootstrapOrderSequence, found] at booted
    cases booted
    exact ⟨by rw [← found], fun other same => (Option.some.inj same).symm⟩
  | none =>
    rw [bootstrapOrderSequence, found] at booted
    cases created : store.createSequence (store.maximumId + 1) with
    | error error =>
      rw [created] at booted
      cases booted
    | ok booted' =>
      rw [created] at booted
      cases booted
      exact ⟨createSequence_ok created, fun other same => by cases same⟩

/-- Everything that a call can do. After a bootstrap the sequence only moves on, and an id that
is returned is the value before the next one and above the table. -/
theorem nextOrderId_cases (store : Store) :
    (∃ error, nextOrderId store = (.error error, store)) ∨
      ∃ next later result, (∀ known, store.sequence = some known → known = next) ∧
        nextOrderId store = (result, { store with sequence := some later }) ∧ next ≤ later ∧
        ∀ id, result = .ok id → next ≤ id ∧ store.maximumId < id ∧ later = id + 1 := by
  cases booted : bootstrapOrderSequence store with
  | error error => exact .inl ⟨error, by rw [nextOrderId, booted]⟩
  | ok pair =>
    obtain ⟨_, next⟩ := pair
    obtain ⟨rfl, known⟩ := bootstrap_spec booted
    right
    by_cases spent : bigintMax < next
    · refine ⟨next, next, .error .exhausted, known, ?_, le_rfl, fun id same => by cases same⟩
      simp only [nextOrderId, booted, Store.nextval, if_pos spent]
    by_cases fresh : store.maximumId < next
    · refine ⟨next, next + 1, .ok next, known, ?_, by omega, ?_⟩
      · have above : ({ store with sequence := some next } : Store).maximumId < next := fresh
        simp only [nextOrderId, booted, Store.nextval, if_neg spent, if_pos above]
      · rintro id same
        obtain rfl := Except.ok.inj same
        exact ⟨le_rfl, fresh, rfl⟩
    have same : ({ store with sequence := some next } : Store).maximumId = store.maximumId := rfl
    cases created : Store.createSequence { store with sequence := some (next + 1) }
        (store.maximumId + 1) with
    | error error =>
      refine ⟨next, next + 1, .error error, known, ?_, by omega, fun id same => by cases same⟩
      simp only [nextOrderId, booted, Store.nextval, if_neg spent, if_neg fresh, same, created]
    | ok replaced =>
      obtain rfl := createSequence_ok created
      by_cases full : bigintMax < store.maximumId + 1
      · refine ⟨next, store.maximumId + 1, .error .exhausted, known, ?_, by omega,
          fun id same => by cases same⟩
        simp only [nextOrderId, booted, Store.nextval, if_neg spent, if_neg fresh, same, created,
          if_pos full]
      · refine ⟨next, store.maximumId + 1 + 1, .ok (store.maximumId + 1), known, ?_, by omega, ?_⟩
        · simp only [nextOrderId, booted, Store.nextval, if_neg spent, if_neg fresh, same,
            created, if_neg full]
        · rintro id returned
          obtain rfl := Except.ok.inj returned
          exact ⟨by omega, by omega, rfl⟩

theorem nextOrderId_spec {store after : Store} {id : ℤ}
    (returned : nextOrderId store = (.ok id, after)) :
    (∀ present ∈ store.orders.keys, present < id) ∧ after.sequence = some (id + 1) ∧
      ∀ next, store.sequence = some next → next ≤ id := by
  obtain ⟨error, failed⟩ | ⟨next, later, result, known, done, onward, fresh⟩ :=
    nextOrderId_cases store
  · rw [failed] at returned
    cases returned
  · rw [done] at returned
    obtain ⟨rfl, rfl⟩ := Prod.mk.inj returned
    obtain ⟨atLeast, above, rfl⟩ := fresh id rfl
    refine ⟨fun present listed => (le_maximumId listed).trans_lt above, rfl, ?_⟩
    intro other same
    rw [known other same]
    exact atLeast

theorem nextOrderId_ahead (store : Store) : Ahead store (nextOrderId store).2 := by
  obtain ⟨error, failed⟩ | ⟨next, later, result, known, done, onward, -⟩ :=
    nextOrderId_cases store
  · rw [failed]
    exact fun next found => ⟨next, found, le_rfl⟩
  · rw [done]
    intro other same
    exact ⟨later, rfl, known other same ▸ onward⟩

theorem Ahead.refl (store : Store) : Ahead store store :=
  fun next found => ⟨next, found, le_rfl⟩

theorem reopen_ahead (store : Store) : Ahead store (reopen store) := by
  unfold reopen
  split
  · exact .refl store
  · rename_i booted
    obtain ⟨rfl, known⟩ := bootstrap_spec booted
    intro other same
    exact ⟨_, rfl, (known other same).le⟩

theorem insertOrder_ahead (store : Store) (id : ℤ) (row : OrderRow) :
    Ahead store (insertOrder store id row) := by
  unfold insertOrder
  split
  · exact .refl store
  · exact fun next found => ⟨next, found, le_rfl⟩

theorem advance_ahead (store : Store) (step : Step) : Ahead store (advance store step).2 := by
  cases step with
  | call =>
    have moved := nextOrderId_ahead store
    change Ahead store (issueOne store).2
    unfold issueOne
    split <;> rename_i outcome <;> rwa [outcome] at moved
  | insert id row => exact insertOrder_ahead store id row
  | cleanup day => exact fun next found => ⟨next, found, le_rfl⟩
  | reopen => exact reopen_ahead store

/-- What one step returns is above the table and not below the sequence, and the sequence is
then above it. -/
theorem advance_issued {store : Store} {step : Step} {call : Issued}
    (listed : call ∈ (advance store step).1) :
    (∀ id ∈ call.present, id < call.id) ∧ (∀ next, store.sequence = some next → next ≤ call.id) ∧
      (advance store step).2.sequence = some (call.id + 1) ∧
      (advance store step).1 = [call] := by
  cases step with
  | insert id row => cases listed
  | cleanup day => cases listed
  | reopen => cases listed
  | call =>
    change call ∈ (issueOne store).1 at listed
    change _ ∧ _ ∧ (issueOne store).2.sequence = _ ∧ (issueOne store).1 = _
    unfold issueOne at listed ⊢
    split at listed
    · rename_i id after outcome
      obtain rfl := List.mem_singleton.mp listed
      obtain ⟨above, moved, atLeast⟩ := nextOrderId_spec outcome
      exact ⟨above, atLeast, moved, rfl⟩
    · cases listed

theorem issued_ahead {store : Store} {steps : List Step} {next : ℤ}
    (started : store.sequence = some next) {call : Issued} (listed : call ∈ issued store steps) :
    next ≤ call.id := by
  induction steps generalizing store next with
  | nil => cases listed
  | cons step rest ih =>
    rcases List.mem_append.mp listed with now | later
    · exact (advance_issued now).2.1 next started
    · obtain ⟨after, moved, onward⟩ := advance_ahead store step next started
      exact onward.trans (ih moved later)

/-- Each id that a run returns is above every id it returned before and above every id in the
table. -/
theorem issued_neverReused (store : Store) (steps : List Step) :
    (issued store steps).Pairwise (fun earlier later => earlier.id < later.id) ∧
      ∀ call ∈ issued store steps, ∀ id ∈ call.present, id < call.id := by
  induction steps generalizing store with
  | nil => exact ⟨List.Pairwise.nil, fun call listed => absurd listed List.not_mem_nil⟩
  | cons step rest ih =>
    obtain ⟨increasing, above⟩ := ih (advance store step).2
    constructor
    · refine List.pairwise_append.mpr ⟨?_, increasing, ?_⟩
      · cases returned : (advance store step).1 with
        | nil => exact List.Pairwise.nil
        | cons call others =>
          have single := (advance_issued (returned ▸ List.mem_cons_self :
            call ∈ (advance store step).1)).2.2.2
          rw [← returned, single]
          exact List.pairwise_singleton _ _
      · intro earlier now later listed
        have onward := issued_ahead (advance_issued now).2.2.1 listed
        omega
    · intro call listed
      rcases List.mem_append.mp listed with now | later
      · exact (advance_issued now).1
      · exact above call later

end TradingEngine.OrderIds
