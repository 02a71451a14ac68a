import TradingEngine.LedgerGrowth
import Mathlib.Data.List.MinMax

/-!
# Projections that resume from a saved prefix

A projection replays the ledger once and takes a snapshot at each requested
close. Inside a context of checkpoints it also saves the state tables after each
close, under the digest of the events applied so far, and a later request starts
from the longest saved prefix that its own events begin with. The prefix must not
reach beyond the first requested close.

A saved state is the replay of the prefix behind its digest. So where digests of
compared prefixes do not collide, restoring it and replaying the rest is the
whole replay, whatever happened to the ledger since.
-/

namespace TradingEngine.Ledger

open KeyedTables OrderTypes Nyse Runs

/-- What a projection reads of one account. `profile` stands for the columns of the
portfolio and account rows that replay does not read. -/
structure AccountRows where
  accountId : String
  profile : String
  settings : LedgerSettings
  ledger : LedgerTables

/-- Checkpoints are kept apart by account, portfolio row and account settings. -/
structure CheckpointKey where
  accountId : String
  profile : String
  initialCash : ℚ
  settings : LedgerSettings
  deriving DecidableEq

def AccountRows.key (account : AccountRows) : CheckpointKey :=
  ⟨account.accountId, account.profile, account.ledger.initialCash, account.settings⟩

/-- A saved prefix: its length, its digest and the state tables after it. -/
structure Checkpoint (Digest : Type) where
  position : Nat
  digest : Digest
  rows : Book

/-- One context of checkpoints. -/
structure Checkpoints (Digest : Type) where
  limit : Int
  accounts : Table CheckpointKey (List (Checkpoint Digest))

/-- Enter a context. -/
def projectionCheckpoints (Digest : Type) (limit : Int) : Checkpoints Digest := ⟨limit, ∅⟩

def Checkpoints.saved {Digest : Type} (checkpoints : Checkpoints Digest) (key : CheckpointKey) :
    List (Checkpoint Digest) :=
  (checkpoints.accounts.lookup key).getD []

/-- Python's `del saved[:-limit]`. -/
def newest {α : Type} (limit : Int) (saved : List α) : List α :=
  if 0 < limit then saved.drop (saved.length - limit.toNat) else saved.drop (-limit).toNat

/-- Save a prefix that is not there yet. -/
def keep {Digest : Type} [DecidableEq Digest] (limit : Int) (checkpoint : Checkpoint Digest)
    (saved : List (Checkpoint Digest)) : List (Checkpoint Digest) :=
  if saved.all fun item =>
      decide ((item.position, item.digest) ≠ (checkpoint.position, checkpoint.digest)) then
    newest limit (saved ++ [checkpoint])
  else saved

/-- Apply the events up to the end of a day. -/
def applyThrough (zone : Zone) (settings : LedgerSettings) (times : FillTimes) (day : Int) :
    List Event → Nat → Book → Except LedgerError (List Event × Nat × Book)
  | [], position, book => .ok ([], position, book)
  | event :: rest, position, book =>
    if event.date zone settings.engine ≤ day then
      match replayEvent settings times book event with
      | .error raised => .error raised
      | .ok next => applyThrough zone settings times day rest (position + 1) next
    else .ok (event :: rest, position, book)

/-- Snapshots at the closes of ascending days. Inside a context a prefix is saved
after each, and what was saved before an error stays. -/
def projectDays {Digest : Type} [DecidableEq Digest] (zone : Zone) (settings : LedgerSettings)
    (times : FillTimes) (digests : Nat → Digest) (limit : Int) :
    List Int → List Event → Nat → Book → Option (List (Checkpoint Digest)) →
      Except LedgerError (List (Int × Snapshot)) × Option (List (Checkpoint Digest))
  | [], _, _, _, saved => (.ok [], saved)
  | day :: days, rest, position, book, saved =>
    match applyThrough zone settings times day rest position book with
    | .error raised => (.error raised, saved)
    | .ok (rest, position, book) =>
      let (later, saved) := projectDays zone settings times digests limit days rest position book
        (saved.map (keep limit ⟨position, digests position, book⟩))
      (later.map ((day, book.state) :: ·), saved)

/-- The requested days, each once and in order. -/
def closes (days : List Int) : List Int := days.dedup.insertionSort (· ≤ ·)

/-- A request: the account as it is at that moment, and the closes it asks for. -/
structure Request where
  account : AccountRows
  days : List Int

/-- The events up to the last requested close. -/
def Request.sequence (zone : Zone) (request : Request) : Except LedgerError (List Event) :=
  events zone request.account.settings.engine request.account.ledger none
    (closes request.days).getLast?

/-- The longest saved prefix that the events begin with and that ends by the first close. -/
def resumable {Digest : Type} [DecidableEq Digest] (zone : Zone) (engine : Engine)
    (digests : Nat → Digest) (sequence : List Event) (day : Int)
    (saved : List (Checkpoint Digest)) : Option (Checkpoint Digest) :=
  let first := sequence.countP fun event => decide (event.date zone engine ≤ day)
  let usable := saved.filter fun item =>
    decide (item.position ≤ first) && decide (digests item.position = item.digest)
  usable.argmax Checkpoint.position

/-- Project several closes with one chronological replay, inside a context or not.
`digest` is the running digest over keys, kinds and rows of the events. -/
def projectedStatesAtCloses {Digest : Type} [DecidableEq Digest] (zone : Zone)
    (digest : List Event → Digest) (checkpoints : Option (Checkpoints Digest)) (request : Request) :
    Except LedgerError (List (Int × Snapshot)) × Option (Checkpoints Digest) :=
  match closes request.days with
  | [] => (.ok [], checkpoints)
  | day :: days =>
    match request.sequence zone with
    | .error raised => (.error raised, checkpoints)
    | .ok sequence =>
      let account := request.account
      let digests := fun position => digest (sequence.take position)
      let project := projectDays zone account.settings account.ledger.times digests
      let opening := Book.opening account.ledger.initialCash
      match checkpoints with
      | none => ((project 0 (day :: days) sequence 0 opening none).1, none)
      | some context =>
        let saved := context.saved account.key
        let (result, saved) :=
          match resumable zone account.settings.engine digests sequence day saved with
          | none => project context.limit (day :: days) sequence 0 opening (some saved)
          | some item =>
            project context.limit (day :: days) (sequence.drop item.position) item.position
              item.rows (some saved)
        (result, some { context with accounts := context.accounts.insert account.key (saved.getD []) })

/-- The results of requests made one after another. -/
def projections {Digest : Type} [DecidableEq Digest] (zone : Zone) (digest : List Event → Digest) :
    Option (Checkpoints Digest) → List Request → List (Except LedgerError (List (Int × Snapshot)))
  | _, [] => []
  | checkpoints, request :: requests =>
    let (result, after) := projectedStatesAtCloses zone digest checkpoints request
    result :: projections zone digest after requests

/-- Digests tell apart the prefixes that are compared: equally long ones of requests
under one key. -/
def CollisionFree {Digest : Type} (zone : Zone) (digest : List Event → Digest)
    (requests : List Request) : Prop :=
  ∀ first ∈ requests, ∀ second ∈ requests, first.account.key = second.account.key →
    ∀ earlier later, first.sequence zone = .ok earlier → second.sequence zone = .ok later →
      ∀ position, digest (earlier.take position) = digest (later.take position) →
        earlier.take position = later.take position

section Replay

variable {zone : Zone} {settings : LedgerSettings} {times : FillTimes} {day : Int}

/-- Events up to a day that lie in front are applied before the rest is looked at. -/
theorem applyThrough_append {front : List Event}
    (due : ∀ event ∈ front, event.date zone settings.engine ≤ day) (rest : List Event)
    (position : Nat) (book : Book) :
    applyThrough zone settings times day (front ++ rest) position book =
      (front.foldlM (replayEvent settings times) book).bind fun next =>
        applyThrough zone settings times day rest (position + front.length) next := by
  induction front generalizing position book with
  | nil => rfl
  | cons event front ih =>
    have now := due event List.mem_cons_self
    rw [List.cons_append, applyThrough, if_pos now, List.foldlM_cons]
    cases replayed : replayEvent settings times book event with
    | error raised => rfl
    | ok next =>
      have onward := ih (fun event listed => due event (List.mem_cons_of_mem _ listed))
        (position + 1) next
      rw [Nat.add_assoc, Nat.add_comm 1] at onward
      exact onward

/-- What `applyThrough` leaves is a later point of the same replay. -/
theorem applyThrough_ok {rest later : List Event} {position reached : Nat} {book next : Book}
    (applied : applyThrough zone settings times day rest position book = .ok (later, reached, next)) :
    ∃ front, rest = front ++ later ∧ reached = position + front.length ∧
      front.foldlM (replayEvent settings times) book = .ok next := by
  induction rest generalizing position book with
  | nil =>
    cases applied
    exact ⟨[], rfl, rfl, rfl⟩
  | cons event rest ih =>
    rw [applyThrough] at applied
    split at applied
    · split at applied
      · cases applied
      · rename_i moved replayed
        obtain ⟨front, rfl, rfl, onward⟩ := ih applied
        refine ⟨event :: front, rfl, ?_, ?_⟩
        · rw [List.length_cons]
          omega
        · rw [List.foldlM_cons, replayed]
          exact onward
    · cases applied
      exact ⟨[], rfl, rfl, rfl⟩

variable {Digest : Type} [DecidableEq Digest] {digests : Nat → Digest}

/-- Saving prefixes does not change the snapshots. -/
theorem projectDays_result (limit other : Int) (days : List Int) (rest : List Event)
    (position : Nat) (book : Book) (saved instead : Option (List (Checkpoint Digest))) :
    (projectDays zone settings times digests limit days rest position book saved).1 =
      (projectDays zone settings times digests other days rest position book instead).1 := by
  induction days generalizing rest position book saved instead with
  | nil => rfl
  | cons day days ih =>
    rw [projectDays, projectDays]
    cases applyThrough zone settings times day rest position book with
    | error raised => rfl
    | ok reached =>
      dsimp only
      rw [ih]

theorem projectDays_resumed (digests : Nat → Digest) (limit : Int) {front : List Event} {book next : Book}
    (due : ∀ event ∈ front, event.date zone settings.engine ≤ day)
    (replayed : front.foldlM (replayEvent settings times) book = .ok next) (days : List Int)
    (rest : List Event) (saved : Option (List (Checkpoint Digest))) :
    (projectDays zone settings times digests limit (day :: days) rest front.length next saved).1 =
      (projectDays zone settings times digests limit (day :: days) (front ++ rest) 0 book saved).1 := by
  rw [projectDays, projectDays, applyThrough_append due, replayed, Nat.zero_add]
  rfl

end Replay

theorem times_of_sequence {zone : Zone} {request : Request} {sequence : List Event}
    (listed : request.sequence zone = .ok sequence) {orderId : OrderId} {row : FillRow}
    (member : Event.fill orderId row ∈ sequence) :
    request.account.ledger.times orderId = row.fillTs := by
  have stored := fill_mem_rows.mp ((mem_events listed).mp member).1
  simp [LedgerTables.times, stored]

theorem replay_prefix_eq {zone : Zone} {settings : LedgerSettings} {first second : Request}
    {earlier later : List Event} (listed : first.sequence zone = .ok earlier)
    (relisted : second.sequence zone = .ok later) {position : Nat}
    (same : earlier.take position = later.take position) (cash : ℚ) :
    (earlier.take position).foldlM (replayEvent settings first.account.ledger.times)
        (.opening cash) =
      (later.take position).foldlM (replayEvent settings second.account.ledger.times)
        (.opening cash) := by
  have agree : ∀ orderId, (∃ row, Event.fill orderId row ∈ earlier.take position) →
      first.account.ledger.times orderId = second.account.ledger.times orderId := by
    rintro orderId ⟨row, member⟩
    rw [times_of_sequence listed (List.mem_of_mem_take member),
      times_of_sequence relisted (List.mem_of_mem_take (same ▸ member))]
  rw [← same]
  exact replay_congr agree (opening_rooted _ cash) fun orderId row member => ⟨row, member⟩

theorem sequence_ascending {zone : Zone} {request : Request} {sequence : List Event}
    (listed : request.sequence zone = .ok sequence) :
    sequence.Pairwise fun a b => a.date zone request.account.settings.engine ≤
      b.date zone request.account.settings.engine := by
  rw [(events_ok listed).2]
  refine (inOrder_sorted _ _ _).imp ?_
  intro a b ordered
  have stamps : a.stamp zone request.account.settings.engine ≤
      b.stamp zone request.account.settings.engine := by
    rcases (Prod.Lex.le_iff.mp ordered) with less | ⟨equal, -⟩
    · exact less.le
    · exact equal.le
  exact Int.ediv_le_ediv (by decide) stamps

section Context

variable {Digest : Type} {zone : Zone} {digest : List Event → Digest} {requests : List Request}

/-- A saved state is the replay of the events behind its digest, with which a request
under the same key began. -/
def Replayed (zone : Zone) (digest : List Event → Digest) (requests : List Request)
    (key : CheckpointKey) (item : Checkpoint Digest) : Prop :=
  ∃ request ∈ requests, request.account.key = key ∧
    ∃ sequence, request.sequence zone = .ok sequence ∧
      item.digest = digest (sequence.take item.position) ∧
      (sequence.take item.position).foldlM
        (replayEvent key.settings request.account.ledger.times) (.opening key.initialCash) =
          .ok item.rows

/-- Every saved state of a context is a replay. -/
def Checkpoints.Sound (zone : Zone) (digest : List Event → Digest) (requests : List Request)
    (checkpoints : Checkpoints Digest) : Prop :=
  ∀ key, ∀ item ∈ checkpoints.saved key, Replayed zone digest requests key item

variable [DecidableEq Digest]

theorem mem_keep {limit : Int} {checkpoint item : Checkpoint Digest}
    {saved : List (Checkpoint Digest)} (member : item ∈ keep limit checkpoint saved) :
    item ∈ saved ∨ item = checkpoint := by
  unfold keep newest at member
  split at member
  · have kept : item ∈ saved ++ [checkpoint] := by
      split at member <;> exact List.mem_of_mem_drop member
    simpa using kept
  · exact .inl member

/-- From a point of a request's own replay, only replayed prefixes are saved. -/
theorem projectDays_saved {request : Request} (made : request ∈ requests) {sequence : List Event}
    (listed : request.sequence zone = .ok sequence) (limit : Int) (days : List Int)
    {front rest : List Event} (whole : sequence = front ++ rest) {book : Book}
    (replayed : front.foldlM (replayEvent request.account.settings request.account.ledger.times)
      (.opening request.account.ledger.initialCash) = .ok book)
    {saved : List (Checkpoint Digest)}
    (sound : ∀ item ∈ saved, Replayed zone digest requests request.account.key item) :
    ∀ item ∈ (projectDays zone request.account.settings request.account.ledger.times
      (fun position => digest (sequence.take position)) limit days rest front.length book
      (some saved)).2.getD [], Replayed zone digest requests request.account.key item := by
  induction days generalizing front rest book saved with
  | nil => exact sound
  | cons day days ih =>
    rw [projectDays]
    cases applied : applyThrough zone request.account.settings request.account.ledger.times day
        rest front.length book with
    | error raised => exact sound
    | ok point =>
      obtain ⟨later, reached, next⟩ := point
      obtain ⟨more, rfl, rfl, onward⟩ := applyThrough_ok applied
      have joined : (front ++ more).foldlM
          (replayEvent request.account.settings request.account.ledger.times)
          (.opening request.account.ledger.initialCash) = .ok next := by
        rw [List.foldlM_append, replayed]
        exact onward
      have regrouped : sequence = (front ++ more) ++ later := by
        rw [whole, List.append_assoc]
      rw [← List.length_append]
      refine ih regrouped joined ?_
      intro item member
      rcases mem_keep member with old | rfl
      · exact sound item old
      · have taken : sequence.take (front ++ more).length = front ++ more := by
          rw [regrouped, List.take_left]
        refine ⟨request, made, rfl, sequence, listed, rfl, ?_⟩
        rw [taken]
        exact joined

/-- The state a request resumes from is the replay of the events it skips. -/
theorem resumable_replayed (distinct : CollisionFree zone digest requests) {request : Request}
    (made : request ∈ requests) {sequence : List Event}
    (listed : request.sequence zone = .ok sequence) {day : Int} {saved : List (Checkpoint Digest)}
    (sound : ∀ item ∈ saved, Replayed zone digest requests request.account.key item)
    {item : Checkpoint Digest}
    (found : resumable zone request.account.settings.engine
      (fun position => digest (sequence.take position)) sequence day saved = some item) :
    (sequence.take item.position).length = item.position ∧
      (∀ event ∈ sequence.take item.position,
        event.date zone request.account.settings.engine ≤ day) ∧
      (sequence.take item.position).foldlM
        (replayEvent request.account.settings request.account.ledger.times)
        (.opening request.account.ledger.initialCash) = .ok item.rows := by
  have usable := List.argmax_mem found
  simp only [List.mem_filter, Bool.and_eq_true, decide_eq_true_eq] at usable
  obtain ⟨member, early, matching⟩ := usable
  obtain ⟨earlier, before, sameKey, prior, relisted, digested, replayed⟩ := sound item member
  have same : prior.take item.position = sequence.take item.position :=
    distinct earlier before request made sameKey prior sequence relisted listed _
      (digested.symm.trans matching.symm)
  refine ⟨?_, le_of_mem_take _ day (sequence_ascending listed) early, ?_⟩
  · rw [List.length_take]
    exact Nat.min_eq_left (early.trans List.countP_le_length)
  · rw [← replay_prefix_eq relisted listed same]
    exact replayed

/-- One request in a sound context: the plain result, and a sound context after it. -/
theorem projectedStatesAtCloses_sound (distinct : CollisionFree zone digest requests)
    {context : Checkpoints Digest} (sound : context.Sound zone digest requests)
    {request : Request} (made : request ∈ requests) :
    (projectedStatesAtCloses zone digest (some context) request).1 =
        (projectedStatesAtCloses zone digest none request).1 ∧
      ∃ after, (projectedStatesAtCloses zone digest (some context) request).2 = some after ∧
        after.Sound zone digest requests := by
  unfold projectedStatesAtCloses
  cases closes request.days with
  | nil => exact ⟨rfl, context, rfl, sound⟩
  | cons day days =>
    cases listed : request.sequence zone with
    | error raised => exact ⟨rfl, context, rfl, sound⟩
    | ok sequence =>
      dsimp only
      have kept := sound request.account.key
      have stored : ∀ saved : List (Checkpoint Digest),
          (∀ item ∈ saved, Replayed zone digest requests request.account.key item) →
          Checkpoints.Sound zone digest requests
            { context with accounts := context.accounts.insert request.account.key saved } := by
        intro saved replayed key item member
        unfold Checkpoints.saved at member
        by_cases same : key = request.account.key
        · subst same
          rw [AList.lookup_insert] at member
          exact replayed item member
        · rw [AList.lookup_insert_ne same] at member
          exact sound key item member
      cases found : resumable zone request.account.settings.engine
          (fun position => digest (sequence.take position)) sequence day
          (context.saved request.account.key) with
      | none =>
        refine ⟨projectDays_result _ _ _ _ _ _ _ _, _, rfl, stored _ ?_⟩
        exact projectDays_saved made listed context.limit (day :: days) (List.nil_append sequence).symm
          rfl kept
      | some item =>
        obtain ⟨length, due, replayed⟩ := resumable_replayed distinct made listed kept found
        have whole : sequence = sequence.take item.position ++ sequence.drop item.position :=
          (List.take_append_drop _ _).symm
        have resumed := projectDays_resumed (fun position => digest (sequence.take position))
          context.limit due replayed days (sequence.drop item.position)
          (some (context.saved request.account.key))
        rw [length, ← whole] at resumed
        refine ⟨resumed.trans (projectDays_result _ _ _ _ _ _ _ _), _, rfl, stored _ ?_⟩
        have saved := projectDays_saved made listed context.limit (day :: days) whole replayed kept
        rw [length] at saved
        exact saved

theorem projections_sound (distinct : CollisionFree zone digest requests)
    {context : Checkpoints Digest} (sound : context.Sound zone digest requests)
    {made : List Request} (listed : ∀ request ∈ made, request ∈ requests) :
    projections zone digest (some context) made =
      made.map fun request => (projectedStatesAtCloses zone digest none request).1 := by
  induction made generalizing context with
  | nil => rfl
  | cons request rest ih =>
    obtain ⟨same, after, stored, onward⟩ :=
      projectedStatesAtCloses_sound distinct sound (listed request List.mem_cons_self)
    rw [projections]
    dsimp only
    rw [same, stored, List.map_cons,
      ih onward fun request member => listed request (List.mem_cons_of_mem _ member)]

end Context

/-- Inside one context every request has the result of the plain projection of the
ledger as it is at that moment. -/
theorem checkpoints_invisible {Digest : Type} [DecidableEq Digest] (zone : Zone)
    (digest : List Event → Digest) (limit : Int) (requests : List Request)
    (distinct : CollisionFree zone digest requests) :
    projections zone digest (some (projectionCheckpoints Digest limit)) requests =
      requests.map fun request => (projectedStatesAtCloses zone digest none request).1 := by
  refine projections_sound distinct ?_ fun request member => member
  intro key item member
  simp [Checkpoints.saved, projectionCheckpoints] at member

/-- An account that bought one share, with the given dividends. -/
def heldShare (dividends : Table (Ticker × Int) DividendRow) : AccountRows where
  accountId := "acct"
  profile := ""
  settings := ⟨.account, .margin⟩
  ledger :=
    { initialCash := 1000
      splits := ∅
      dividends := dividends
      settlements := ∅
      cashEvents := ∅
      fills := (∅ : Table OrderId FillRow).insert 1
        ⟨"A", .buy, 1, 20000, 100, 100, some (opened daylightTime 20000), 1, none⟩ }

/-- A dividend is booked late, before the close that was saved. -/
def lateDividendRequests : List Request :=
  [⟨heldShare ∅, [20003, 20001]⟩,
    ⟨heldShare ((∅ : Table (Ticker × Int) DividendRow).insert ("A", 20002) ⟨1, 2, 2⟩), [20004]⟩]

theorem late_dividend_projections :
    CollisionFree daylightTime id lateDividendRequests ∧
      projections daylightTime id (some (projectionCheckpoints (List Event) 8))
          lateDividendRequests =
        lateDividendRequests.map fun request =>
          (projectedStatesAtCloses daylightTime id none request).1 := by
  have distinct : CollisionFree daylightTime id lateDividendRequests := by
    intro first _ second _ _ earlier later _ _ position same
    exact same
  exact ⟨distinct, checkpoints_invisible daylightTime id 8 lateDividendRequests distinct⟩

end TradingEngine.Ledger
