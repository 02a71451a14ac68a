import TradingEngine.KeyedTables

/-!
# Reads remembered for one request

Within a request identical reads are answered from an earlier answer. A statement runs on a
connection that keeps one pending result; executing another statement replaces it. A result
object reads through to the connection and keeps an answer that it has read whole. It does
not notice that the connection went on to another statement: then it hands out, and may
remember, the rows of that one. Where no result reads the connection past its own statement,
the reuse is invisible.

The store does not change during a request. Descriptions of results, copies of mutable cells
and calls that leave the interface are not modelled, nor are statements that raise.
-/

namespace TradingEngine.RequestMemo

open KeyedTables

/-- An unchanging store with what the interpreter says of texts and parameters: the rows of a
statement, the classes of characters, and the hashable form of parameters, which compare as
their values do. -/
structure Database (Params Key Row : Type) where
  answer : String → Params → List Row
  word : Char → Bool
  white : Char → Bool
  lower : Char → Char
  frozen : Params → Option Key

/-- Functions whose value changes between calls. -/
def volatile : List String :=
  ["random", "nextval", "currval", "uuid", "gen_random_uuid", "now", "current_timestamp",
    "current_date", "current_time", "get_current_timestamp", "setseed", "today"]

/-- Words that change data or the session. -/
def notPure : List String :=
  ["insert", "update", "delete", "merge", "upsert", "copy", "create", "drop", "alter", "attach",
    "detach", "pragma", "set", "reset", "call", "export", "import", "install", "load", "vacuum",
    "checkpoint", "truncate", "begin", "commit", "rollback", "use"]

def maxKeptRows : Nat := 10000

/-- Where a result object reads from: the answer that it was given, the connection, or
nothing more. -/
inductive Live where
  | replayed | connection | exhausted
  deriving DecidableEq

/-- The rows of one statement, and the slot that they may go to once they are read whole. -/
structure Result (Key Row : Type) where
  rows : List Row
  index : Nat
  live : Live
  store : Option (String × Key)

/-- What an execution hands out: the connection itself or a result object. -/
inductive Handle (Key Row : Type) where
  | raw
  | result (result : Result Key Row)

inductive Fetch where
  | one
  | many (size : Nat)
  | all

inductive Call (Params : Type) where
  | execute (sql : String) (params : Params) (keyworded : Bool)
  | fetch (handle : Nat) (kind : Fetch)

/-- Rows handed out, and rows left. -/
def Fetch.split {Row : Type} : Fetch → List Row → List Row × List Row
  | .one, rows => (rows.take 1, rows.drop 1)
  | .many size, rows => (rows.take size, rows.drop size)
  | .all, rows => (rows, [])

variable {Params Key Row : Type}

namespace Database

variable (db : Database Params Key Row)

def words (sql : String) : List String :=
  (sql.toList.splitOnP fun letter => !db.word letter).map fun word =>
    String.ofList (word.map db.lower)

/-- A text that starts with a word for reading and names nothing volatile or changing. -/
def pureRead (sql : String) : Bool :=
  let first := (sql.toList.dropWhile db.white).takeWhile db.word
  ["select", "with"].contains (String.ofList (first.map db.lower)) &&
    (db.words sql).all fun word => !volatile.contains word && !notPure.contains word

/-- The slot of a read that may be remembered. -/
def slot (sql : String) (params : Params) (keyworded : Bool) : Option (String × Key) :=
  if keyworded = false ∧ db.pureRead sql = true then (db.frozen params).map fun key => (sql, key)
  else none

end Database

/-- What a fetch of a result object works on: the object, the rows that the connection has not
handed out of its statement, and the memory of the request. -/
structure Reading (Key Row : Type) [DecidableEq Key] where
  result : Result Key Row
  pending : List Row
  memo : Table (String × Key) (List Row)

namespace Reading

variable [DecidableEq Key]

/-- Remember an answer that was read whole, once. -/
def keep (reading : Reading Key Row) (rows : List Row) : Reading Key Row where
  result := { reading.result with store := none }
  pending := reading.pending
  memo :=
    match reading.result.store with
    | some slot =>
      if rows.length ≤ maxKeptRows then reading.memo.insert slot rows else reading.memo
    | none => reading.memo

/-- All rows from the connection, or none of an exhausted result. -/
def liveAll (reading : Reading Key Row) : List Row × Reading Key Row :=
  match reading.result.live with
  | .connection => (reading.pending, { reading with pending := [] })
  | .replayed | .exhausted => ([], reading)

/-- One row likewise. -/
def liveOne (reading : Reading Key Row) : Option Row × Reading Key Row :=
  match reading.result.live with
  | .connection => (reading.pending.head?, { reading with pending := reading.pending.tail })
  | .replayed | .exhausted => (none, reading)

/-- Hold buffered rows. -/
def buffer (reading : Reading Key Row) (rows : List Row) (index : Nat) (live : Live) :
    Reading Key Row :=
  { reading with result := { reading.result with rows := rows, index := index, live := live } }

def fetchall (reading : Reading Key Row) : List Row × Reading Key Row :=
  let result := reading.result
  let buffered := result.rows.drop result.index
  if result.live = .replayed then
    (buffered, reading.buffer result.rows result.rows.length .replayed)
  else
    let (read, after) := reading.liveAll
    let rows := buffered ++ read
    let kept := if result.index = 0 ∧ result.rows.isEmpty then after.keep rows else after
    (rows, kept.buffer [] 0 .exhausted)

def fetchone (reading : Reading Key Row) : Option Row × Reading Key Row :=
  let result := reading.result
  match result.rows[result.index]? with
  | some row => (some row, reading.buffer result.rows (result.index + 1) result.live)
  | none =>
    if result.live = .replayed then (none, reading)
    else
      let (row, after) := reading.liveOne
      if result.rows.isEmpty ∧ result.index = 0 then
        match row with
        | none => (none, (after.keep []).buffer [] 0 .exhausted)
        | some row =>
          -- a result of at most one row is kept whole, a longer one is read through
          let (following, after) := after.liveOne
          match following with
          | none => (some row, (after.keep [row]).buffer [row] 1 .exhausted)
          | some next =>
            let through := after.buffer [row, next] 1 result.live
            (some row, { through with result := { through.result with store := none } })
      else (row, after)

def fetchmany (reading : Reading Key Row) : Nat → List Row × Reading Key Row
  | 0 => ([], reading)
  | size + 1 =>
    match reading.fetchone with
    | (none, after) => ([], after)
    | (some row, after) =>
      let (rows, last) := after.fetchmany size
      (row :: rows, last)

def fetch (reading : Reading Key Row) : Fetch → List Row × Reading Key Row
  | .one => (reading.fetchone.1.toList, reading.fetchone.2)
  | .many size => reading.fetchmany size
  | .all => reading.fetchall

end Reading

/-- A request: the connection's pending rows, which execution they belong to, the memory and
the handles given out, in the order of the executions. -/
structure Session (Key Row : Type) [DecidableEq Key] where
  pending : List Row
  running : Option Nat
  memo : Table (String × Key) (List Row)
  handles : List (Handle Key Row)

namespace Session

variable [DecidableEq Key]

def start : Session Key Row := ⟨[], none, ∅, []⟩

/-- Run a statement on the connection. -/
def send (db : Database Params Key Row) (session : Session Key Row) (sql : String)
    (params : Params) (handle : Handle Key Row) : Session Key Row :=
  { session with
    pending := db.answer sql params
    running := some session.handles.length
    handles := session.handles ++ [handle] }

def execute (db : Database Params Key Row) (session : Session Key Row) (sql : String)
    (params : Params) (keyworded : Bool) : Session Key Row :=
  match db.slot sql params keyworded with
  | none => { session with memo := ∅ }.send db sql params .raw
  | some slot =>
    match session.memo.lookup slot with
    | some rows =>
      { session with handles := session.handles ++ [.result ⟨rows, 0, .replayed, none⟩] }
    | none => session.send db sql params (.result ⟨[], 0, .connection, some slot⟩)

/-- A fetch through a handle: the rows that it returns and the session after it. -/
def fetch (session : Session Key Row) (handle : Nat) (kind : Fetch) :
    List Row × Session Key Row :=
  match session.handles[handle]? with
  | none => ([], session)
  | some .raw =>
    ((kind.split session.pending).1, { session with pending := (kind.split session.pending).2 })
  | some (.result result) =>
    let read := Reading.fetch ⟨result, session.pending, session.memo⟩ kind
    (read.1, { session with
      pending := read.2.pending
      memo := read.2.memo
      handles := session.handles.set handle (.result read.2.result) })

def step (db : Database Params Key Row) (session : Session Key Row) :
    Call Params → Session Key Row
  | .execute sql params keyworded => session.execute db sql params keyworded
  | .fetch handle kind => (session.fetch handle kind).2

def run (db : Database Params Key Row) (calls : List (Call Params)) : Session Key Row :=
  calls.foldl (step db) start

end Session

namespace Reading

variable [DecidableEq Key]

/-- The rows that a result object has not handed out. -/
def remaining (reading : Reading Key Row) : List Row :=
  reading.result.rows.drop reading.result.index ++
    if reading.result.live = .connection then reading.pending else []

/-- A fetch that goes through to the connection. -/
def Reaches (result : Result Key Row) : Fetch → Prop
  | .one => result.live = .connection ∧ result.rows.length ≤ result.index
  | .many size => result.live = .connection ∧ result.rows.length < result.index + size
  | .all => result.live = .connection

/-- A result that may still be remembered has not been read. -/
def Fresh (result : Result Key Row) : Prop :=
  result.store.isSome → result.rows = [] ∧ result.index = 0 ∧ result.live = .connection

/-- What a fetch may change besides its own buffer: it takes rows of the connection only when it
reaches it, and it remembers an answer only whole, before which nothing was read. -/
structure Leaves (kind : Fetch) (before after : Reading Key Row) : Prop where
  live : after.result.live = .connection → before.result.live = .connection
  fresh : Fresh after.result
  pending : ¬Reaches before.result kind → after.pending = before.pending
  store : after.result.store = none ∨ after = before
  memo : after.memo = before.memo ∨ ∃ slot, before.result.store = some slot ∧
    after.memo = before.memo.insert slot before.pending ∧ after.result.store = none

theorem keep_memo (reading : Reading Key Row) (rows : List Row) :
    (reading.keep rows).memo = reading.memo ∨ ∃ slot, reading.result.store = some slot ∧
      (reading.keep rows).memo = reading.memo.insert slot rows := by
  unfold keep
  dsimp only
  split
  · rename_i slot stored
    split
    · exact .inr ⟨slot, stored, rfl⟩
    · exact .inl rfl
  · exact .inl rfl

/-- Nothing is buffered: the connection is read, or nothing is left. -/
theorem fetchone_unbuffered {reading : Reading Key Row}
    (empty : reading.result.rows[reading.result.index]? = none) :
    reading.fetchone =
      match reading.result.live with
      | .replayed => (none, reading)
      | .exhausted =>
        if reading.result.rows.isEmpty ∧ reading.result.index = 0 then
          (none, (reading.keep []).buffer [] 0 .exhausted)
        else (none, reading)
      | .connection =>
        if reading.result.rows.isEmpty ∧ reading.result.index = 0 then
          match reading.pending with
          | [] => (none, ({ reading with pending := [] }.keep []).buffer [] 0 .exhausted)
          | [row] =>
            (some row, ({ reading with pending := [] }.keep [row]).buffer [row] 1 .exhausted)
          | row :: next :: rest => (some row,
            ⟨⟨[row, next], 1, .connection, none⟩, rest, reading.memo⟩)
        else (reading.pending.head?, { reading with pending := reading.pending.tail }) := by
  unfold fetchone
  dsimp only
  rw [empty]
  cases live : reading.result.live with
  | replayed => rfl
  | exhausted =>
    rw [if_neg (by simp)]
    unfold liveOne
    rw [live]
  | connection =>
    rw [if_neg (by simp)]
    unfold liveOne
    rw [live]
    dsimp only
    split
    · cases pending : reading.pending with
      | nil => rfl
      | cons row rest =>
        cases rest with
        | nil =>
          dsimp only [List.head?_cons, List.tail_cons]
          rw [live]
          rfl
        | cons next rest =>
          dsimp only [List.head?_cons, List.tail_cons]
          rw [live]
          rfl
    · rfl

/-- One row of what remains. -/
theorem fetchone_remaining (reading : Reading Key Row) :
    reading.fetchone.1.toList = reading.remaining.take 1 ∧
      reading.fetchone.2.remaining = reading.remaining.drop 1 := by
  cases buffered : reading.result.rows[reading.result.index]? with
  | some row =>
    obtain ⟨inside, value⟩ := List.getElem?_eq_some_iff.mp buffered
    have front : reading.result.rows.drop reading.result.index =
        row :: reading.result.rows.drop (reading.result.index + 1) := by
      rw [List.drop_eq_getElem_cons inside, value]
    unfold fetchone
    dsimp only
    rw [buffered]
    unfold remaining buffer
    dsimp only
    rw [front]
    exact ⟨rfl, rfl⟩
  | none =>
    have drained : reading.result.rows.drop reading.result.index = [] :=
      List.drop_eq_nil_of_le (List.getElem?_eq_none_iff.mp buffered)
    rw [fetchone_unbuffered buffered]
    unfold remaining
    rw [drained]
    cases live : reading.result.live with
    | replayed => simp [drained, live]
    | exhausted =>
      dsimp only
      split
      · simp [keep, buffer]
      · simp [drained, live]
    | connection =>
      dsimp only
      split
      · rcases reading.pending with - | ⟨row, - | ⟨next, rest⟩⟩ <;> simp [keep, buffer]
      · cases reading.pending <;> simp [drained]

theorem fetchmany_remaining (reading : Reading Key Row) (size : Nat) :
    (reading.fetchmany size).1 = reading.remaining.take size ∧
      (reading.fetchmany size).2.remaining = reading.remaining.drop size := by
  induction size generalizing reading with
  | zero => exact ⟨rfl, rfl⟩
  | succ size ih =>
    obtain ⟨first, after⟩ := fetchone_remaining reading
    unfold fetchmany
    split
    · rename_i next fetched
      rw [fetched] at first after
      have nothing : reading.remaining = [] := by
        cases rows : reading.remaining with
        | nil => rfl
        | cons row rest =>
          rw [rows] at first
          cases first
      rw [nothing] at after ⊢
      exact ⟨rfl, after⟩
    · rename_i row next fetched
      rw [fetched] at first after
      obtain ⟨rest, last⟩ := ih next
      cases rows : reading.remaining with
      | nil =>
        rw [rows] at first
        cases first
      | cons head tail =>
        rw [rows] at first after
        dsimp only at first after ⊢
        rw [rest, last, after]
        cases first
        exact ⟨rfl, rfl⟩

theorem liveAll_rows (reading : Reading Key Row) :
    reading.liveAll.1 = if reading.result.live = .connection then reading.pending else [] := by
  unfold liveAll
  split <;> rename_i live <;> simp [live]

theorem fetchall_remaining (reading : Reading Key Row) :
    reading.fetchall.1 = reading.remaining ∧ reading.fetchall.2.remaining = [] := by
  unfold fetchall
  dsimp only
  by_cases replayed : reading.result.live = .replayed
  · rw [if_pos replayed]
    simp [remaining, buffer, replayed]
  · rw [if_neg replayed, liveAll_rows]
    exact ⟨rfl, rfl⟩

theorem fetch_remaining (reading : Reading Key Row) (kind : Fetch) :
    (reading.fetch kind).1 = (kind.split reading.remaining).1 ∧
      (reading.fetch kind).2.remaining = (kind.split reading.remaining).2 := by
  cases kind with
  | one => exact fetchone_remaining reading
  | many size => exact fetchmany_remaining reading size
  | all => exact fetchall_remaining reading

omit [DecidableEq Key] in
theorem Fresh.of_read {result : Result Key Row} (read : result.store = none) : Fresh result := by
  intro kept
  rw [read] at kept
  cases kept

variable {kind : Fetch}

/-- Reading on with what was remembered, or not, from an answer that is whole. -/
theorem Leaves.of_kept {reading whole : Reading Key Row} {rows buffered : List Row}
    {index : Nat} (same : whole.result = reading.result) (memo : whole.memo = reading.memo)
    (pending : ¬Reaches reading.result kind → whole.pending = reading.pending)
    (read : reading.result.store.isSome → rows = reading.pending) :
    Leaves kind reading ((whole.keep rows).buffer buffered index .exhausted) where
  live impossible := by cases impossible
  fresh := .of_read rfl
  pending := pending
  store := .inl rfl
  memo := by
    rcases whole.keep_memo rows with unchanged | ⟨slot, stored, written⟩
    · exact .inl (unchanged.trans memo)
    · rw [same] at stored
      obtain rfl := read (by rw [stored]; rfl)
      rw [memo] at written
      exact .inr ⟨slot, stored, written, rfl⟩

theorem Leaves.of_read {before after : Reading Key Row}
    (live : after.result.live = .connection → before.result.live = .connection)
    (pending : ¬Reaches before.result kind → after.pending = before.pending)
    (read : after.result.store = none) (memo : after.memo = before.memo) :
    Leaves kind before after :=
  ⟨live, .of_read read, pending, .inl read, .inl memo⟩

theorem Leaves.refl {reading : Reading Key Row} (fresh : Fresh reading.result) :
    Leaves kind reading reading :=
  ⟨id, fresh, fun _ => rfl, .inr rfl, .inl rfl⟩

omit [DecidableEq Key] in
theorem Fresh.read {result : Result Key Row} (fresh : Fresh result)
    (moved : ¬(result.rows = [] ∧ result.index = 0 ∧ result.live = .connection)) :
    result.store = none := by
  by_contra kept
  exact moved (fresh (Option.isSome_iff_ne_none.mpr kept))

theorem fetchone_leaves {reading : Reading Key Row} (fresh : Fresh reading.result) :
    Leaves .one reading reading.fetchone.2 := by
  cases buffered : reading.result.rows[reading.result.index]? with
  | some row =>
    have read : reading.result.store = none := by
      apply fresh.read
      rintro ⟨empty, -⟩
      rw [empty] at buffered
      cases buffered
    unfold fetchone
    dsimp only
    rw [buffered]
    exact .of_read id (fun _ => rfl) read rfl
  | none =>
    have drained := List.getElem?_eq_none_iff.mp buffered
    rw [fetchone_unbuffered buffered]
    cases live : reading.result.live with
    | replayed => exact .refl fresh
    | exhausted =>
      have read : reading.result.store = none := fresh.read (by simp [live])
      dsimp only
      split
      · exact .of_kept rfl rfl (fun _ => rfl) (by simp [read])
      · exact .refl fresh
    | connection =>
      have reaches : Reaches reading.result .one := ⟨live, drained⟩
      dsimp only
      split
      · split
        · rename_i answer
          exact .of_kept rfl rfl (fun kept => absurd reaches kept) fun _ => answer.symm
        · rename_i answer
          exact .of_kept rfl rfl (fun kept => absurd reaches kept) fun _ => answer.symm
        · exact .of_read (fun _ => live) (fun kept => absurd reaches kept) rfl rfl
      · rename_i moved
        have read : reading.result.store = none := by
          apply fresh.read
          rintro ⟨empty, first, -⟩
          exact moved ⟨by rw [empty]; rfl, first⟩
        exact .of_read id (fun kept => absurd reaches kept) read rfl

theorem fetchall_leaves {reading : Reading Key Row} (fresh : Fresh reading.result) :
    Leaves .all reading reading.fetchall.2 := by
  unfold fetchall
  dsimp only
  by_cases replayed : reading.result.live = .replayed
  · have read : reading.result.store = none := fresh.read (by simp [replayed])
    rw [if_pos replayed]
    exact .of_read (fun impossible => by cases impossible) (fun _ => rfl) read rfl
  · rw [if_neg replayed, liveAll_rows]
    have same : reading.liveAll.2.result = reading.result := by
      unfold liveAll
      split <;> rfl
    have memo : reading.liveAll.2.memo = reading.memo := by
      unfold liveAll
      split <;> rfl
    have pending : ¬Reaches reading.result .all → reading.liveAll.2.pending = reading.pending := by
      intro kept
      unfold liveAll
      split
      · rename_i live
        exact absurd live kept
      · rfl
      · rfl
    dsimp only
    split
    · refine .of_kept same memo pending fun stored => ?_
      obtain ⟨empty, -, live⟩ := fresh stored
      rw [empty, if_pos live, List.drop_nil, List.nil_append]
    · rename_i moved
      have read : reading.result.store = none := by
        apply fresh.read
        rintro ⟨empty, first, -⟩
        exact moved ⟨first, by rw [empty]; rfl⟩
      refine .of_read (fun impossible => by cases impossible) pending ?_ memo
      exact (congrArg Result.store same).trans read

theorem Leaves.widen {size : Nat} {before after : Reading Key Row}
    (leaves : Leaves .one before after) : Leaves (.many (size + 1)) before after where
  live := leaves.live
  fresh := leaves.fresh
  pending kept := leaves.pending fun reaches => kept ⟨reaches.1, by have := reaches.2; omega⟩
  store := leaves.store
  memo := leaves.memo

/-- A row and then the others. -/
theorem Leaves.trans {size : Nat} {before between after : Reading Key Row}
    (first : Leaves .one before between) (others : Leaves (.many size) between after)
    (buffered : before.result.index < before.result.rows.length →
      between.result.rows = before.result.rows ∧
        between.result.index = before.result.index + 1) :
    Leaves (.many (size + 1)) before after where
  live live := first.live (others.live live)
  fresh := others.fresh
  pending kept := by
    have one : ¬Reaches before.result .one := fun reaches =>
      kept ⟨reaches.1, by have := reaches.2; omega⟩
    have rest : ¬Reaches between.result (.many size) := by
      rintro ⟨live, short⟩
      have open' := first.live live
      have inside : before.result.index < before.result.rows.length := by
        by_contra beyond
        exact one ⟨open', not_lt.mp beyond⟩
      obtain ⟨rows, index⟩ := buffered inside
      rw [rows, index] at short
      exact kept ⟨open', by omega⟩
    exact (others.pending rest).trans (first.pending one)
  store := by
    rcases others.store with read | rfl
    · exact .inl read
    · exact first.store
  memo := by
    rcases first.memo with same | ⟨slot, stored, written, read⟩
    · rcases others.memo with unchanged | ⟨slot, stored, written, read⟩
      · exact .inl (unchanged.trans same)
      · rcases first.store with gone | rfl
        · rw [gone] at stored
          cases stored
        · exact .inr ⟨slot, stored, written, read⟩
    · rcases others.memo with unchanged | ⟨other, again, -⟩
      · refine .inr ⟨slot, stored, unchanged.trans written, ?_⟩
        rcases others.store with gone | rfl
        · exact gone
        · exact read
      · rw [read] at again
        cases again

theorem fetchone_buffered {reading : Reading Key Row}
    (inside : reading.result.index < reading.result.rows.length) :
    reading.fetchone.2.result.rows = reading.result.rows ∧
      reading.fetchone.2.result.index = reading.result.index + 1 := by
  unfold fetchone
  dsimp only
  rw [List.getElem?_eq_getElem inside]
  exact ⟨rfl, rfl⟩

theorem fetchmany_leaves {reading : Reading Key Row} (fresh : Fresh reading.result) (size : Nat) :
    Leaves (.many size) reading (reading.fetchmany size).2 := by
  induction size generalizing reading with
  | zero => exact .refl fresh
  | succ size ih =>
    have first := fetchone_leaves fresh
    have buffered := @fetchone_buffered _ _ _ reading
    unfold fetchmany
    split
    · rename_i after fetched
      rw [fetched] at first
      exact first.widen
    · rename_i row after fetched
      rw [fetched] at first buffered
      exact first.trans (ih first.fresh) buffered

/-- An answer that a fetch remembers came through from the connection. -/
theorem fetch_remembers {reading : Reading Key Row} (fresh : Fresh reading.result)
    {slot : String × Key} (stored : reading.result.store = some slot)
    (read : (reading.fetch kind).2.result.store = none) : Reaches reading.result kind := by
  obtain ⟨rows, index, live⟩ := fresh (by rw [stored]; rfl)
  cases kind with
  | one => exact ⟨live, by rw [rows, index]; exact le_refl 0⟩
  | all => exact live
  | many size =>
    cases size with
    | zero =>
      have kept : reading.result.store = none := read
      rw [stored] at kept
      cases kept
    | succ size => exact ⟨live, by rw [rows, index]; exact Nat.lt_add_left 0 size.succ_pos⟩

theorem fetch_leaves {reading : Reading Key Row} (fresh : Fresh reading.result) (kind : Fetch) :
    Leaves kind reading (reading.fetch kind).2 := by
  cases kind with
  | one => exact fetchone_leaves fresh
  | many size => exact fetchmany_leaves fresh size
  | all => exact fetchall_leaves fresh

end Reading

/-- What the connection alone would do: the number of executions, and the rows of the latest
that it has not handed out. -/
structure Owed (Row : Type) where
  count : Nat
  due : List Row

def Owed.step (db : Database Params Key Row) (owed : Owed Row) : Call Params → Owed Row
  | .execute sql params _ => ⟨owed.count + 1, db.answer sql params⟩
  | .fetch handle kind =>
    if handle + 1 = owed.count then ⟨owed.count, (kind.split owed.due).2⟩ else owed

def owed (db : Database Params Key Row) (calls : List (Call Params)) : Owed Row :=
  calls.foldl (Owed.step db) ⟨0, []⟩

/-- Whether a fetch through a handle goes through to the connection. -/
def Handle.Reaches : Handle Key Row → Fetch → Prop
  | .raw, kind => kind ≠ .many 0
  | .result reader, kind => Reading.Reaches reader kind

/-- Whether a handle reads the connection at all. -/
def Handle.Live : Handle Key Row → Prop
  | .raw => True
  | .result reader => reader.live = .connection

variable [DecidableEq Key]

/-- The rows that a handle would still hand out. -/
def Handle.remaining (pending : List Row) : Handle Key Row → List Row
  | .raw => pending
  | .result reader => Reading.remaining ⟨reader, pending, ∅⟩

/-- A fetch goes through to the connection only while that runs the handle's statement. -/
def Session.Orderly (session : Session Key Row) : Call Params → Prop
  | .execute .. => True
  | .fetch handle kind => ∀ given, session.handles[handle]? = some given → given.Reaches kind →
      session.running = some handle

/-- Every call of a run is orderly. -/
def OrderlyRun (db : Database Params Key Row) (calls : List (Call Params)) : Prop :=
  ∀ before call after, calls = before ++ call :: after →
    (Session.run db before).Orderly call

/-- Executions that share a slot have the same answer. -/
def SlotsFaithful (db : Database Params Key Row) (calls : List (Call Params)) : Prop :=
  ∀ sql params keyworded other others otherwise, .execute sql params keyworded ∈ calls →
    .execute other others otherwise ∈ calls →
    db.slot sql params keyworded = db.slot other others otherwise →
    (db.slot sql params keyworded).isSome → db.answer sql params = db.answer other others

/-- Rows that belong to a slot: the answer of an execution that has it. -/
def Belongs (db : Database Params Key Row) (calls : List (Call Params)) (slot : String × Key)
    (rows : List Row) : Prop :=
  ∃ sql params keyworded, .execute sql params keyworded ∈ calls ∧
    db.slot sql params keyworded = some slot ∧ rows = db.answer sql params

/-- What holds of a request in which no result reads past its own statement. -/
structure Sound (db : Database Params Key Row) (calls : List (Call Params))
    (session : Session Key Row) (owed : Owed Row) : Prop where
  count : session.handles.length = owed.count
  running : ∀ n, session.running = some n → n < session.handles.length
  memo : ∀ slot rows, session.memo.lookup slot = some rows → Belongs db calls slot rows
  fresh : ∀ n result, session.handles[n]? = some (.result result) →
    Reading.Fresh result ∧ ∀ slot, result.store = some slot → session.running = some n →
      Belongs db calls slot session.pending
  latest : ∀ n handle, n + 1 = owed.count → session.handles[n]? = some handle →
    handle.remaining session.pending = owed.due ∧ (handle.Live → session.running = some n)

variable {calls : List (Call Params)}

omit [DecidableEq Key] in
theorem Belongs.mono {db : Database Params Key Row}
    {slot : String × Key} {rows : List Row} (belongs : Belongs db calls slot rows)
    (call : Call Params) : Belongs db (calls ++ [call]) slot rows := by
  obtain ⟨sql, params, keyworded, made, key, answer⟩ := belongs
  exact ⟨sql, params, keyworded, List.mem_append_left _ made, key, answer⟩

/-- What the connection still has does not matter to a handle that does not read it. -/
theorem Handle.remaining_idle {handle : Handle Key Row} (idle : ¬handle.Live)
    (first second : List Row) : handle.remaining first = handle.remaining second := by
  cases handle with
  | raw => exact absurd trivial idle
  | result reader =>
    have closed : reader.live ≠ .connection := idle
    unfold remaining Reading.remaining
    dsimp only
    rw [if_neg closed, if_neg closed]

omit [DecidableEq Key] in
/-- An answer from memory is the statement's own. -/
theorem Belongs.answer {db : Database Params Key Row} {sql : String}
    {params : Params} {keyworded : Bool} {slot : String × Key} {rows : List Row}
    (faithful : SlotsFaithful db calls) (made : .execute sql params keyworded ∈ calls)
    (known : db.slot sql params keyworded = some slot) (belongs : Belongs db calls slot rows) :
    rows = db.answer sql params := by
  obtain ⟨other, others, otherwise, earlier, same, answer⟩ := belongs
  rw [answer]
  refine faithful _ _ _ _ _ _ earlier made (same.trans known.symm) ?_
  rw [same]
  rfl

/-- Executing a statement keeps a request sound. -/
theorem Sound.execute {db : Database Params Key Row}
    {session : Session Key Row} {owed : Owed Row} (sound : Sound db calls session owed)
    (sql : String) (params : Params) (keyworded : Bool)
    (faithful : SlotsFaithful db (calls ++ [.execute sql params keyworded])) :
    Sound db (calls ++ [.execute sql params keyworded])
      (session.execute db sql params keyworded) ⟨owed.count + 1, db.answer sql params⟩ := by
  have made : .execute sql params keyworded ∈ calls ++ [.execute sql params keyworded] :=
    List.mem_append_right _ (List.mem_singleton_self _)
  -- a handle of the longer list is an earlier one or the new one
  have listed : ∀ {n : Nat} {handle new : Handle Key Row},
      (session.handles ++ [new])[n]? = some handle →
        n < session.handles.length ∧ session.handles[n]? = some handle ∨
          n = session.handles.length ∧ handle = new := by
    intro n handle new found
    rcases lt_or_ge n session.handles.length with earlier | later
    · rw [List.getElem?_append_left earlier] at found
      exact .inl ⟨earlier, found⟩
    · rw [List.getElem?_append_right later, List.getElem?_singleton] at found
      split at found
      · cases found
        exact .inr ⟨by omega, rfl⟩
      · cases found
  have latest : ∀ {n : Nat}, n + 1 = owed.count + 1 → n = session.handles.length := by
    intro n last
    rw [sound.count]
    omega
  -- a statement that goes to the connection
  have sent : ∀ {started : Session Key Row} {new : Handle Key Row},
      started.handles = session.handles →
      (∀ slot rows, started.memo.lookup slot = some rows →
        Belongs db (calls ++ [.execute sql params keyworded]) slot rows) →
      (∀ reader, new = .result reader → Reading.Fresh reader ∧ ∀ slot, reader.store = some slot →
        db.slot sql params keyworded = some slot) →
      new.remaining (db.answer sql params) = db.answer sql params →
      Sound db (calls ++ [.execute sql params keyworded]) (started.send db sql params new)
        ⟨owed.count + 1, db.answer sql params⟩ := by
    intro started new same memo fresh whole
    unfold Session.send
    rw [same]
    refine ⟨?_, ?_, memo, ?_, ?_⟩
    · rw [List.length_append, sound.count]
      rfl
    · intro n now
      cases now
      simp
    · intro n reader found
      rcases listed found with ⟨earlier, before⟩ | ⟨rfl, rfl⟩
      · refine ⟨(sound.fresh n reader before).1, fun slot _ now => ?_⟩
        exact absurd (Option.some.inj now).symm (by omega)
      · obtain ⟨unread, own⟩ := fresh reader rfl
        exact ⟨unread, fun slot stored _ => ⟨sql, params, keyworded, made, own slot stored, rfl⟩⟩
    · intro n handle last found
      rcases listed found with ⟨earlier, -⟩ | ⟨rfl, rfl⟩
      · exact absurd (latest last) (by omega)
      · exact ⟨whole, fun _ => rfl⟩
  unfold Session.execute
  cases known : db.slot sql params keyworded with
  | none =>
    refine sent rfl ?_ ?_ rfl
    · intro slot rows found
      cases found
    · intro reader impossible
      cases impossible
  | some slot =>
    dsimp only
    cases kept : session.memo.lookup slot with
    | none =>
      refine sent rfl (fun slot rows found => (sound.memo slot rows found).mono _) ?_ ?_
      · intro reader new
        cases new
        refine ⟨fun _ => ⟨rfl, rfl, rfl⟩, fun other stored => ?_⟩
        cases stored
        exact known
      · simp [Handle.remaining, Reading.remaining]
    | some rows =>
      have answer : rows = db.answer sql params :=
        ((sound.memo slot rows kept).mono _).answer faithful made known
      refine ⟨?_, ?_, ?_, ?_, ?_⟩
      · rw [List.length_append, sound.count]
        rfl
      · intro n now
        have before := sound.running n now
        rw [List.length_append]
        exact before.trans (Nat.lt_succ_self _)
      · exact fun slot rows found => (sound.memo slot rows found).mono _
      · intro n reader found
        rcases listed found with ⟨-, before⟩ | ⟨rfl, new⟩
        · obtain ⟨unread, own⟩ := sound.fresh n reader before
          exact ⟨unread, fun slot stored now => (own slot stored now).mono _⟩
        · cases new
          exact ⟨.of_read rfl, fun slot stored => by cases stored⟩
      · intro n handle last found
        rcases listed found with ⟨earlier, -⟩ | ⟨rfl, rfl⟩
        · exact absurd (latest last) (by omega)
        · refine ⟨?_, fun live => by cases live⟩
          simp [Handle.remaining, Reading.remaining, answer]

/-- A fetch that is orderly keeps a request sound, and on the latest handle it returns what
the connection alone would. -/
theorem Sound.fetch {db : Database Params Key Row}
    {session : Session Key Row} {owed : Owed Row} (sound : Sound db calls session owed)
    (handle : Nat) (kind : Fetch)
    (orderly : ∀ given, session.handles[handle]? = some given → given.Reaches kind →
      session.running = some handle) :
    (handle + 1 = owed.count →
      (session.fetch handle kind).1 = (kind.split owed.due).1) ∧
    Sound db (calls ++ [.fetch handle kind]) (session.fetch handle kind).2
      (owed.step db (.fetch handle kind)) := by
  have belongs : ∀ {slot rows}, Belongs db calls slot rows →
      Belongs db (calls ++ [.fetch handle kind]) slot rows := fun known => known.mono _
  have due : ∀ n, n + 1 = (owed.step db (.fetch handle kind)).count → n ≠ handle →
      n + 1 = owed.count ∧ (owed.step db (.fetch handle kind)).due = owed.due := by
    intro n last other
    unfold Owed.step at last ⊢
    dsimp only at last ⊢
    split at last
    · rename_i own
      exact absurd (last.trans own.symm) (by omega)
    · rename_i own
      rw [if_neg own]
      exact ⟨last, rfl⟩
  have count : (owed.step db (.fetch handle kind)).count = owed.count := by
    unfold Owed.step
    dsimp only
    split <;> rfl
  have own : handle + 1 = owed.count →
      (owed.step db (.fetch handle kind)).due = (kind.split owed.due).2 := by
    intro last
    unfold Owed.step
    dsimp only
    rw [if_pos last]
  -- the other handles keep what they had: either the connection was not read, or they are not live
  have others : ∀ {pending : List Row} {given : Handle Key Row},
      session.handles[handle]? = some given →
      (¬given.Reaches kind → pending = session.pending) → ∀ n other, n ≠ handle →
      n + 1 = owed.count → session.handles[n]? = some other →
      other.remaining pending = owed.due ∧ (other.Live → session.running = some n) := by
    intro pending given found untouched n other apart last listed
    obtain ⟨left, live⟩ := sound.latest n other last listed
    refine ⟨?_, live⟩
    by_cases reaches : given.Reaches kind
    · have idle : ¬other.Live := by
        intro reading
        have now := (orderly given found reaches).symm.trans (live reading)
        exact apart (Option.some.inj now).symm
      rw [← left]
      exact Handle.remaining_idle idle _ _
    · rw [untouched reaches, left]
  cases found : session.handles[handle]? with
  | none =>
    have absent := List.getElem?_eq_none_iff.mp found
    have older : handle + 1 ≠ owed.count := by
      rw [← sound.count]
      omega
    unfold Session.fetch
    rw [found]
    refine ⟨fun last => absurd last older, ?_⟩
    have same : owed.step db (.fetch handle kind) = owed := if_neg older
    rw [same]
    exact ⟨sound.count, sound.running,
      fun slot rows stored => belongs (sound.memo slot rows stored),
      fun n reader listed => ⟨(sound.fresh n reader listed).1, fun slot stored now =>
        belongs ((sound.fresh n reader listed).2 slot stored now)⟩, sound.latest⟩
  | some given =>
    cases given with
    | raw =>
      unfold Session.fetch
      rw [found]
      dsimp only
      have untouched : ¬Handle.Reaches (.raw : Handle Key Row) kind →
          (kind.split session.pending).2 = session.pending := by
        intro idle
        obtain rfl : kind = .many 0 := not_not.mp idle
        rfl
      refine ⟨fun last => ?_, ⟨sound.count.trans count.symm, sound.running,
        fun slot rows stored => belongs (sound.memo slot rows stored), ?_, ?_⟩⟩
      · rw [← (sound.latest handle .raw last found).1]
        rfl
      · intro n reader listed
        obtain ⟨unread, whole⟩ := sound.fresh n reader listed
        refine ⟨unread, fun slot stored now => ?_⟩
        by_cases reaches : Handle.Reaches (.raw : Handle Key Row) kind
        · have running := (orderly .raw found reaches).symm.trans now
          obtain rfl := Option.some.inj running
          rw [found] at listed
          cases listed
        · rw [untouched reaches]
          exact belongs (whole slot stored now)
      · intro n other last listed
        by_cases same : n = handle
        · subst same
          obtain rfl : Handle.raw = other := Option.some.inj (found.symm.trans listed)
          rw [count] at last
          obtain ⟨left, live⟩ := sound.latest n .raw last found
          rw [own last, ← left]
          exact ⟨rfl, live⟩
        · obtain ⟨latest, rest⟩ := due n last same
          rw [rest]
          exact others found untouched n other same latest listed
    | result reader =>
      unfold Session.fetch
      rw [found]
      dsimp only
      obtain ⟨unread, whole⟩ := sound.fresh handle reader found
      have remaining := Reading.fetch_remaining ⟨reader, session.pending, session.memo⟩ kind
      have leaves : Reading.Leaves kind _
          (Reading.fetch ⟨reader, session.pending, session.memo⟩ kind).2 :=
        Reading.fetch_leaves unread kind
      have remembers : ∀ slot, reader.store = some slot →
          (Reading.fetch ⟨reader, session.pending, session.memo⟩ kind).2.result.store = none →
          session.running = some handle := fun slot stored read =>
        orderly _ found (Reading.fetch_remembers (by exact unread) (by exact stored) read)
      generalize Reading.fetch ⟨reader, session.pending, session.memo⟩ kind = read at *
      refine ⟨fun last => ?_, ⟨?_, ?_, ?_, ?_, ?_⟩⟩
      · rw [← (sound.latest handle _ last found).1]
        exact remaining.1
      · rw [List.length_set, sound.count, count]
      · intro n now
        rw [List.length_set]
        exact sound.running n now
      · intro slot rows stored
        rcases leaves.memo with same | ⟨own, kept, written, gone⟩
        · rw [same] at stored
          exact belongs (sound.memo slot rows stored)
        · rw [written] at stored
          by_cases here : slot = own
          · subst here
            rw [AList.lookup_insert] at stored
            cases stored
            exact belongs (whole slot kept (remembers slot kept gone))
          · rw [AList.lookup_insert_ne here] at stored
            exact belongs (sound.memo slot rows stored)
      · intro n other listed
        by_cases same : n = handle
        · subst same
          rw [List.getElem?_set_self' , found] at listed
          cases listed
          refine ⟨leaves.fresh, fun slot stored now => ?_⟩
          rcases leaves.store with gone | unchanged
          · rw [gone] at stored
            cases stored
          · rw [unchanged] at stored ⊢
            exact belongs (whole slot stored now)
        · rw [List.getElem?_set_ne (Ne.symm same)] at listed
          obtain ⟨still, rest⟩ := sound.fresh n other listed
          refine ⟨still, fun slot stored now => ?_⟩
          by_cases reaches : Handle.Reaches (.result reader) kind
          · have running := (orderly _ found reaches).symm.trans now
            exact absurd (Option.some.inj running).symm same
          · rw [leaves.pending reaches]
            exact belongs (rest slot stored now)
      · intro n other last listed
        by_cases same : n = handle
        · subst same
          rw [List.getElem?_set_self', found] at listed
          cases listed
          rw [count] at last
          obtain ⟨left, live⟩ := sound.latest n _ last found
          rw [own last, ← left]
          exact ⟨remaining.2, fun open' => live (leaves.live open')⟩
        · rw [List.getElem?_set_ne (Ne.symm same)] at listed
          obtain ⟨latest, rest⟩ := due n last same
          rw [rest]
          exact others found (fun reaches => leaves.pending reaches) n other same latest listed

theorem run_append (db : Database Params Key Row) (before : List (Call Params))
    (call : Call Params) :
    Session.run db (before ++ [call]) = (Session.run db before).step db call ∧
      owed db (before ++ [call]) = (owed db before).step db call := by
  unfold Session.run owed
  rw [List.foldl_append, List.foldl_append]
  exact ⟨rfl, rfl⟩

theorem OrderlyRun.initial {db : Database Params Key Row} {before after : List (Call Params)}
    (orderly : OrderlyRun db (before ++ after)) : OrderlyRun db before := by
  rintro earlier call later rfl
  exact orderly earlier call (later ++ after) (by simp)

omit [DecidableEq Key] in
theorem SlotsFaithful.initial {db : Database Params Key Row} {before after : List (Call Params)}
    (faithful : SlotsFaithful db (before ++ after)) : SlotsFaithful db before :=
  fun _ _ _ _ _ _ first second =>
    faithful _ _ _ _ _ _ (List.mem_append_left _ first) (List.mem_append_left _ second)

/-- Every orderly run leaves a sound request. -/
theorem run_sound {db : Database Params Key Row}
    (orderly : OrderlyRun db calls) (faithful : SlotsFaithful db calls) :
    Sound db calls (Session.run db calls) (owed db calls) := by
  induction calls using List.reverseRecOn with
  | nil =>
    refine ⟨rfl, ?_, ?_, ?_, ?_⟩
    · intro n now
      cases now
    · intro slot rows found
      cases found
    · intro n result found
      cases found
    · intro n handle _ found
      cases found
  | append_singleton before call ih =>
    have sound := ih orderly.initial faithful.initial
    obtain ⟨session, due⟩ := run_append db before call
    rw [session, due]
    cases call with
    | execute sql params keyworded => exact sound.execute sql params keyworded faithful
    | fetch handle kind => exact (sound.fetch handle kind (orderly before _ [] rfl)).2

/-- The reuse is invisible in a run in which no fetch goes through to the connection past its
own statement and executions that share a slot have one answer: every fetch on the latest
result returns what the connection alone would, and whatever is remembered under a slot is
the answer of a statement that has it. -/
theorem reuse_invisible {db : Database Params Key Row} {calls : List (Call Params)}
    (orderly : OrderlyRun db calls) (faithful : SlotsFaithful db calls) :
    (∀ before handle kind after, calls = before ++ .fetch handle kind :: after →
      handle + 1 = (owed db before).count →
      ((Session.run db before).fetch handle kind).1 = (kind.split (owed db before).due).1) ∧
    ∀ before after, calls = before ++ after → ∀ slot rows,
      (Session.run db before).memo.lookup slot = some rows → Belongs db before slot rows := by
  constructor
  · rintro before handle kind after rfl last
    have sound := run_sound orderly.initial faithful.initial
    exact (sound.fetch handle kind (orderly before _ after rfl)).1 last
  · rintro before after rfl
    exact (run_sound orderly.initial faithful.initial).memo

/-- Two tables with one row each, and parameters that stand for themselves. -/
def twoTables : Database Unit Unit Nat where
  answer sql _ := if sql = "SELECT a" then [1] else [2]
  word letter := letter.isAlphanum
  white letter := letter.isWhitespace
  lower := Char.toLower
  frozen := some

/-- A result is read after another statement has run. -/
def lateRead : List (Call Unit) :=
  [.execute "SELECT a" () false, .execute "SELECT b" () false, .fetch 0 .all]

/-- The late result takes the rows of the other statement, so that the latest has none. -/
theorem lateRead_visible :
    ¬∀ (db : Database Unit Unit Nat) (calls : List (Call Unit)),
      (∀ before handle kind after, calls = before ++ .fetch handle kind :: after →
        handle + 1 = (owed db before).count →
        ((Session.run db before).fetch handle kind).1 = (kind.split (owed db before).due).1) ∧
      ∀ before after, calls = before ++ after → ∀ slot rows,
        (Session.run db before).memo.lookup slot = some rows → Belongs db before slot rows := by
  intro every
  have same := (every twoTables (lateRead ++ [.fetch 1 .all])).1 lateRead 1 .all [] rfl
    (by decide +kernel)
  revert same
  decide +kernel

/-- A result is read at once. -/
def promptRead : List (Call Unit) := [.execute "SELECT a" () false, .fetch 0 .all]

theorem promptRead_invisible :
    ((Session.run twoTables [.execute "SELECT a" () false]).fetch 0 .all).1 =
      (Fetch.all.split (owed twoTables [.execute "SELECT a" () false]).due).1 ∧
    ∀ slot rows, (Session.run twoTables promptRead).memo.lookup slot = some rows →
      Belongs twoTables promptRead slot rows := by
  have running : (Session.run twoTables [.execute "SELECT a" () false]).running = some 0 := by
    decide +kernel
  have orderly : OrderlyRun twoTables promptRead := by
    intro before call after split
    rcases before with - | ⟨first, - | ⟨second, rest⟩⟩
    · cases split
      exact trivial
    · cases split
      exact fun _ _ _ => running
    · simp [promptRead] at split
  have faithful : SlotsFaithful twoTables promptRead := by
    intro sql params keyworded other others otherwise made again _ _
    simp only [promptRead, List.mem_cons, Call.execute.injEq, reduceCtorEq, List.not_mem_nil,
      or_false] at made again
    rw [made.1, again.1]
  obtain ⟨same, kept⟩ := reuse_invisible orderly faithful
  exact ⟨same [.execute "SELECT a" () false] 0 .all [] rfl rfl, kept promptRead [] (by simp)⟩

end TradingEngine.RequestMemo
