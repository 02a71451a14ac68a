import TradingEngine.LeagueDividends

/-!
# Each dividend is credited once, on the holding before its ex-date

Between two credits of one dividend its ex-date was cleared by a rerun, because a credit
leaves a row that every later step reads and nothing else removes. The quantity of a credit
is read from one replay that stops at several closes; at each of them it is the rebuild of
the ledger's rows that are dated before the ex-date.
-/

namespace TradingEngine.LeagueSteps

open KeyedTables OrderTypes Nyse Ledger Runs

section Sorting

variable {α : Type} {r : α → α → Prop} [DecidableRel r] [Std.Total r] [IsTrans α r]

omit [Std.Total r] in
/-- Inserting into a sorted list and keeping some elements may be exchanged. -/
theorem filter_orderedInsert (keep : α → Bool) (element : α) {sorted : List α}
    (ascending : sorted.Pairwise r) :
    (sorted.orderedInsert r element).filter keep =
      if keep element then (sorted.filter keep).orderedInsert r element
      else sorted.filter keep := by
  induction sorted with
  | nil => by_cases kept : keep element <;> simp [kept]
  | cons first rest ih =>
    obtain ⟨least, later⟩ := List.pairwise_cons.mp ascending
    by_cases before : r element first
    · have below : ∀ other ∈ (first :: rest).filter keep, r element other := by
        intro other listed
        rcases List.mem_cons.mp (List.mem_of_mem_filter listed) with rfl | inside
        · exact before
        · exact Trans.trans before (least other inside)
      rw [List.orderedInsert_cons, if_pos before, List.filter_cons]
      by_cases kept : keep element
      · rw [if_pos kept, if_pos kept]
        cases remaining : (first :: rest).filter keep with
        | nil => rfl
        | cons next _ =>
          rw [List.orderedInsert_cons, if_pos (below next (by simp [remaining]))]
      · rw [if_neg kept, if_neg kept]
    · rw [List.orderedInsert_cons, if_neg before, List.filter_cons, ih later]
      by_cases kept : keep element <;> by_cases stays : keep first <;>
        simp [kept, stays, before]

theorem filter_insertionSort (keep : α → Bool) (elements : List α) :
    (elements.insertionSort r).filter keep = (elements.filter keep).insertionSort r := by
  induction elements with
  | nil => rfl
  | cons first rest ih =>
    rw [List.insertionSort_cons, filter_orderedInsert keep first (List.pairwise_insertionSort r rest),
      ih, List.filter_cons]
    split <;> rfl

end Sorting

/-- A list that ascends in some number falls apart at a bound. -/
theorem filter_le_append {α : Type} (f : α → Int) (bound : Int) {elements : List α}
    (ascending : elements.Pairwise fun a b => f a ≤ f b) :
    elements = elements.filter (fun element => decide (f element ≤ bound)) ++
      elements.filter fun element => !decide (f element ≤ bound) := by
  induction elements with
  | nil => rfl
  | cons first rest ih =>
    obtain ⟨least, ascending⟩ := List.pairwise_cons.mp ascending
    by_cases within : f first ≤ bound
    · rw [List.filter_cons_of_pos (by simpa using within),
        List.filter_cons_of_neg (by simpa using within), List.cons_append,
        ← ih ascending]
    · have none : ∀ other ∈ first :: rest, ¬ f other ≤ bound := by
        intro other listed
        rcases List.mem_cons.mp listed with rfl | inside
        · exact within
        · exact fun early => within ((least other inside).trans early)
      rw [List.filter_eq_nil_iff.mpr (by simpa using none),
        List.filter_eq_self.mpr (by simpa using none), List.nil_append]

section Closes

variable {zone : Zone} {settings : LedgerSettings} {times : FillTimes}

/-- Applying a sorted sequence through a day applies the events of its dates. -/
theorem applyThrough_filter {day : Int} {rest later : List Event} {position reached : Nat}
    {book next : Book}
    (ascending : rest.Pairwise fun a b => a.date zone settings.engine ≤ b.date zone settings.engine)
    (applied : applyThrough zone settings times day rest position book =
      .ok (later, reached, next)) :
    (rest.filter fun event => decide (event.date zone settings.engine ≤ day)).foldlM
        (replayEvent settings times) book = .ok next ∧
      later = rest.filter fun event => !decide (event.date zone settings.engine ≤ day) := by
  induction rest generalizing position book with
  | nil =>
    cases applied
    exact ⟨rfl, rfl⟩
  | cons event rest ih =>
    obtain ⟨least, ascending⟩ := List.pairwise_cons.mp ascending
    rw [applyThrough] at applied
    split at applied
    · rename_i due
      split at applied
      · cases applied
      · rename_i moved replayed
        obtain ⟨onward, remaining⟩ := ih ascending applied
        rw [List.filter_cons_of_pos (by simpa using due),
          List.filter_cons_of_neg (by simpa using due), List.foldlM_cons, replayed]
        exact ⟨onward, remaining⟩
    · rename_i due
      cases applied
      have none : ∀ other ∈ event :: rest, ¬ other.date zone settings.engine ≤ day := by
        intro other listed
        rcases List.mem_cons.mp listed with rfl | inside
        · exact due
        · exact fun early => due ((least other inside).trans early)
      rw [List.filter_eq_nil_iff.mpr (by simpa using none),
        List.filter_eq_self.mpr (by simpa using none)]
      exact ⟨rfl, rfl⟩

/-- Every snapshot of a projection is the state after the events up to its day. -/
theorem projectDays_snapshot {Digest : Type} [DecidableEq Digest] {digests : Nat → Digest}
    {limit : Int} {days : List Int} (done : List Event) {rest : List Event} {position : Nat}
    {opening book : Book} {saved : Option (List (Checkpoint Digest))}
    {snapshots : List (Int × Snapshot)}
    (sorted : days.Pairwise (· ≤ ·))
    (ascending : (done ++ rest).Pairwise fun a b =>
      a.date zone settings.engine ≤ b.date zone settings.engine)
    (past : ∀ day ∈ days, ∀ event ∈ done, event.date zone settings.engine ≤ day)
    (replayed : done.foldlM (replayEvent settings times) opening = .ok book)
    (projected : (projectDays zone settings times digests limit days rest position book saved).1 =
      .ok snapshots) :
    ∀ entry ∈ snapshots, entry.1 ∈ days ∧ ∃ reached,
      ((done ++ rest).filter fun event => decide (event.date zone settings.engine ≤ entry.1)).foldlM
        (replayEvent settings times) opening = .ok reached ∧ entry.2 = reached.state := by
  induction days generalizing done rest position book saved snapshots with
  | nil =>
    cases projected
    simp
  | cons day days ih =>
    obtain ⟨least, sorted⟩ := List.pairwise_cons.mp sorted
    rw [projectDays] at projected
    split at projected
    · cases projected
    rename_i later reached next applied
    obtain ⟨remaining, others, rfl⟩ := map_ok.mp projected
    obtain ⟨onward, tail⟩ := applyThrough_filter (List.pairwise_append.mp ascending).2.1 applied
    have front : done.filter (fun event => decide (event.date zone settings.engine ≤ day)) = done :=
      List.filter_eq_self.mpr (by simpa using past day List.mem_cons_self)
    have parts := filter_le_append (fun event : Event => event.date zone settings.engine) day
      (List.pairwise_append.mp ascending).2.1
    rw [← tail] at parts
    have reachedHere : (done ++ rest.filter fun event =>
        decide (event.date zone settings.engine ≤ day)).foldlM (replayEvent settings times)
          opening = .ok next := by
      rw [List.foldlM_append, replayed]
      exact onward
    intro entry listed
    rcases List.mem_cons.mp listed with rfl | listed
    · refine ⟨List.mem_cons_self, next, ?_, rfl⟩
      rw [List.filter_append, front]
      exact reachedHere
    · have whole : done ++ rest = (done ++ rest.filter fun event =>
          decide (event.date zone settings.engine ≤ day)) ++ later := by
        rw [List.append_assoc, ← parts]
      rw [whole] at ascending ⊢
      refine (ih _ sorted ascending ?_ reachedHere others entry listed).imp_left
        (List.mem_cons_of_mem _)
      intro other inside event member
      rcases List.mem_append.mp member with member | member
      · exact past other (List.mem_cons_of_mem _ inside) event member
      · have due := (List.mem_filter.mp member).2
        exact (of_decide_eq_true due).trans (least other inside)

end Closes

theorem inOrder_within (zone : Zone) (engine : Engine) (rows : List Event) {day last : Int}
    (early : day ≤ last) :
    (inOrder zone engine (rows.filter (Event.within zone engine none (some last)))).filter
        (fun event => decide (event.date zone engine ≤ day)) =
      inOrder zone engine (rows.filter (Event.within zone engine none (some day))) := by
  unfold inOrder
  rw [filter_insertionSort, List.filter_filter]
  refine congrArg _ (List.filter_congr fun event _ => ?_)
  by_cases due : event.date zone engine ≤ day
  · simp [Event.within, due, due.trans early]
  · simp [Event.within, due]

/-- A snapshot of a projection is the rebuilt state of its day. -/
theorem projectedStatesAtCloses_rebuilt {Digest : Type} [DecidableEq Digest] {zone : Zone}
    {digest : List Event → Digest} {request : Request} {snapshots : List (Int × Snapshot)}
    (projected : (projectedStatesAtCloses zone digest none request).1 = .ok snapshots) :
    ∀ entry ∈ snapshots, ∃ book,
      rebuildState zone request.account.settings request.account.ledger (some entry.1) =
        .ok book ∧ entry.2 = book.state := by
  have sorted : (closes request.days).Pairwise (· ≤ ·) := List.pairwise_insertionSort _ _
  unfold projectedStatesAtCloses at projected
  split at projected
  · cases projected
    simp
  rename_i day days requested
  split at projected
  · cases projected
  rename_i sequence listed
  rw [requested] at sorted
  intro entry inside
  obtain ⟨asked, reached, replayed, same⟩ :=
    projectDays_snapshot [] sorted (sequence_ascending listed) (by simp) rfl projected entry inside
  refine ⟨reached, ?_, same⟩
  have latest := List.getLast?_eq_some_getLast (List.cons_ne_nil day days)
  obtain ⟨earlier, split⟩ := List.getLast?_eq_some_iff.mp latest
  have early : entry.1 ≤ (day :: days).getLast (List.cons_ne_nil day days) := by
    rw [split] at asked sorted
    rcases List.mem_append.mp asked with member | member
    · exact (List.pairwise_append.mp sorted).2.2 _ member _ List.mem_cons_self
    · exact (List.mem_singleton.mp member).le
  rw [Request.sequence, requested, latest] at listed
  obtain ⟨timed, rfl⟩ := events_ok listed
  rw [List.nil_append, inOrder_within _ _ _ early] at replayed
  unfold rebuildState events
  rw [timed]
  exact replayed

/-- The ledger as if its history ended before a date. -/
def historyBefore (ledger : LedgerTables) (day : Int) : LedgerTables where
  initialCash := ledger.initialCash
  splits := filterRows (fun key _ => decide (key.2 < day)) ledger.splits
  dividends := filterRows (fun key _ => decide (key.2 < day)) ledger.dividends
  settlements := filterRows (fun key _ => decide (key.2 < day)) ledger.settlements
  cashEvents := filterRows (fun key _ => decide (key.1 < day)) ledger.cashEvents
  fills := filterRows (fun _ row => decide (row.fillDate < day)) ledger.fills

/-- The rows of that ledger are those that a replay through the day before selects. -/
theorem historyBefore_rows (zone : Zone) {engine : Engine} (league : engine ≠ .account)
    (ledger : LedgerTables) (day : Int) :
    (historyBefore ledger day).rows =
      ledger.rows.filter (Event.within zone engine none (some (day - 1))) := by
  have through : ∀ event : Event, ∀ date, event.date zone engine = date →
      event.within zone engine none (some (day - 1)) = decide (date < day) := by
    rintro event date rfl
    simp [Event.within]
  unfold LedgerTables.rows historyBefore filterRows
  simp only [List.filter_append, List.filter_map]
  congr 1
  · congr 1
    · congr 1
      · congr 1
        · refine congrArg _ (List.filter_congr fun row _ => ?_)
          exact (through _ _ (by simp [Event.date, Event.stamp])).symm
        · refine congrArg _ (List.filter_congr fun row _ => ?_)
          exact (through _ _ (by simp [Event.date, Event.stamp])).symm
      · refine congrArg _ (List.filter_congr fun row _ => ?_)
        exact (through _ _ (by simp [Event.date, Event.stamp])).symm
    · refine congrArg _ (List.filter_congr fun row _ => ?_)
      exact (through _ _ (Event.date_cash ..)).symm
  · refine congrArg _ (List.filter_congr fun row _ => ?_)
    exact (through _ _ (by simp [Event.date, Event.stamp, league])).symm

/-- A replay through the day before is the rebuild of the ledger that ends there. -/
theorem rebuildState_before (zone : Zone) {settings : LedgerSettings}
    (league : settings.engine ≠ .account) (ledger : LedgerTables) (day : Int) :
    rebuildState zone settings (historyBefore ledger day) none =
      rebuildState zone settings ledger (some (day - 1)) := by
  have untimed : ∀ tables : LedgerTables, tables.untimed settings.engine = none := by
    intro tables
    simp [LedgerTables.untimed, league]
  have all : ∀ rows : List Event,
      rows.filter (Event.within zone settings.engine none none) = rows :=
    fun rows => List.filter_eq_self.mpr (by simp [Event.within])
  have sequences : events zone settings.engine (historyBefore ledger day) none none =
      events zone settings.engine ledger none (some (day - 1)) := by
    have rows := historyBefore_rows zone league ledger day
    have every := all (historyBefore ledger day).rows
    unfold Event.within at rows every
    unfold events
    rw [untimed, untimed, every, rows]
  unfold rebuildState
  rw [sequences]
  split
  · rfl
  · rename_i sequence listed
    have agree : ∀ orderId, ((historyBefore ledger day).fills.lookup orderId).isSome = true →
        (historyBefore ledger day).times orderId = ledger.times orderId := by
      intro orderId stored
      obtain ⟨row, found⟩ := Option.isSome_iff_exists.mp stored
      have kept := found
      rw [historyBefore, lookup_filterRows, Option.filter_eq_some_iff] at kept
      simp [LedgerTables.times, found, kept.1]
    refine replay_congr agree (opening_rooted _ _) ?_
    intro orderId row member
    rw [← sequences] at listed
    have recorded := ((mem_events listed).mp member).1
    simp [fill_mem_rows.mp recorded]

/-- A credit is what the published dividend pays on the quantity that the payer held at the
close before the ex-date. -/
def Entitled (zone : Zone) (call : DayStep) (planned : Planned) : Prop :=
  let credit := planned.credit
  call.day - dividendLookbackDays < credit.exDate ∧ credit.exDate ≤ call.day ∧
    call.published.lookup (credit.ticker, credit.exDate) = some credit.row.dps ∧
    ∃ book, rebuildState zone planned.payer.settings
        (historyBefore planned.payer.ledger credit.exDate) none = .ok book ∧
      credit.row.qty = (book.position credit.ticker).qty ∧
      credit.row.amount = credit.row.qty * credit.row.dps

/-- A quantity that a snapshot shows is the one that the book holds. -/
theorem heldIn_position {zone : Zone} {settings : LedgerSettings} {ledger : LedgerTables}
    {prefixes : List (Int × Snapshot)} {day : Int} {ticker : Ticker}
    (rebuilt : ∀ entry ∈ prefixes, ∃ book,
      rebuildState zone settings ledger (some entry.1) = .ok book ∧ entry.2 = book.state)
    (held : heldIn prefixes day ticker ≠ 0) :
    ∃ book, rebuildState zone settings ledger (some day) = .ok book ∧
      heldIn prefixes day ticker = (book.position ticker).qty := by
  unfold heldIn at held ⊢
  cases found : prefixes.find? fun entry => decide (entry.1 = day) with
  | none => rw [found] at held; exact absurd rfl held
  | some entry =>
    rw [found] at held
    obtain rfl : entry.1 = day := by simpa using List.find?_some found
    obtain ⟨book, replayed, same⟩ := rebuilt entry (List.mem_of_find?_eq_some found)
    refine ⟨book, replayed, ?_⟩
    dsimp only at held ⊢
    cases shown : entry.2.positions.find? fun row => decide (row.1 = ticker) with
    | none => rw [shown] at held; exact absurd rfl held
    | some row =>
      obtain rfl : row.1 = ticker := by simpa using List.find?_some shown
      have listed := List.mem_of_find?_eq_some shown
      rw [same] at listed
      obtain ⟨stored, kept, equal⟩ := List.mem_map.mp listed
      rw [List.mem_insertionSort] at kept
      have position := lookup_of_mem (List.mem_of_mem_filter kept)
      rw [← equal]
      simp [Book.position, position]

theorem mem_dueDividends {published : Published} {day : Int} {due : Due}
    (listed : due ∈ dueDividends published day) :
    day - dividendLookbackDays < due.exDate ∧ due.exDate ≤ day ∧
      published.lookup (due.ticker, due.exDate) = some due.dps := by
  rw [dueDividends, List.mem_insertionSort] at listed
  obtain ⟨row, kept, rfl⟩ := List.mem_map.mp listed
  obtain ⟨stored, window⟩ := List.mem_filter.mp kept
  simp only [Bool.and_eq_true, decide_eq_true_eq] at window
  exact ⟨window.1, window.2, lookup_of_mem stored⟩

/-- The credits of one portfolio pay what it is entitled to. -/
theorem portfolioCredits_entitled {zone : Zone} {portfolioId : String} {row : LeagueBook}
    {call : DayStep} {credits : List Credit} (league : row.settings.engine ≠ .account)
    (computed : portfolioCredits zone portfolioId row (dueDividends call.published call.day) =
      .ok credits) :
    ∀ credit ∈ credits, Entitled zone call ⟨credit, row⟩ := by
  unfold portfolioCredits at computed
  dsimp only at computed
  split at computed
  · cases computed
  rename_i prefixes projected
  cases computed
  intro credit listed
  obtain ⟨due, owed, made⟩ := List.mem_filterMap.mp listed
  obtain ⟨after, before, priced⟩ := mem_dueDividends (List.mem_of_mem_filter owed)
  unfold creditOf at made
  dsimp only at made
  split at made
  · cases made
  rename_i enough
  cases made
  have held : heldIn prefixes (due.exDate - 1) due.ticker ≠ 0 := by
    intro none
    rw [none] at enough
    norm_num at enough
  obtain ⟨book, replayed, quantity⟩ :=
    heldIn_position (projectedStatesAtCloses_rebuilt projected) held
  exact ⟨after, before, priced, book,
    (rebuildState_before zone league row.ledger due.exDate).trans replayed, quantity, rfl⟩

theorem plannedCredits_entitled {zone : Zone} {books : Books} {call : DayStep}
    {planned : List Planned}
    (plans : plannedCredits zone books (dueDividends call.published call.day) = .ok planned) :
    ∀ plan ∈ planned, Entitled zone call plan := by
  obtain ⟨lists, computed, rfl⟩ := map_ok.mp plans
  intro plan listed
  obtain ⟨credits, inside, member⟩ := List.mem_flatten.mp listed
  obtain ⟨entry, stepped, made⟩ := mapM_source computed credits inside
  obtain ⟨own, calculated, rfl⟩ := map_ok.mp made
  obtain ⟨credit, mine, rfl⟩ := List.mem_map.mp member
  rw [steppedPortfolios, List.mem_insertionSort] at stepped
  have league := (List.mem_filter.mp stepped).2
  simp only [Bool.and_eq_true, decide_eq_true_eq] at league
  exact portfolioCredits_entitled league.2 calculated credit mine

/-- The dividend that a credit pays. -/
def Credit.key (credit : Credit) : String × Ticker × Int :=
  (credit.portfolioId, credit.ticker, credit.exDate)

/-- A credit that no rerun of its ex-date has taken back. -/
def Standing (history : List Entry) (planned : Planned) : Prop :=
  ∃ before since, history = before ++ .credited planned :: since ∧
    Entry.cleared planned.credit.exDate ∉ since

/-- The row of a credit is stored. -/
def Recorded (books : Books) (credit : Credit) : Prop :=
  ∃ row, books.lookup credit.portfolioId = some row ∧
    row.ledger.dividends.lookup (credit.ticker, credit.exDate) = some credit.row

/-- Every credit was made while none of its dividend stood. -/
def Once (history : List Entry) : Prop :=
  ∀ earlier planned later, history = earlier ++ .credited planned :: later →
    ∀ other, Standing earlier other → other.credit.key ≠ planned.credit.key

theorem Standing.of_credited {history : List Entry} {last planned : Planned}
    (standing : Standing (history ++ [.credited last]) planned) :
    planned = last ∨ Standing history planned := by
  obtain ⟨before, since, split, uncleared⟩ := standing
  rcases List.eq_nil_or_concat since with rfl | ⟨front, entry, rfl⟩
  · have same := (List.append_inj' split rfl).2
    cases same
    exact .inl rfl
  · rw [List.concat_eq_append, ← List.cons_append, ← List.append_assoc] at split
    obtain ⟨whole, _⟩ := List.append_inj' split rfl
    refine .inr ⟨before, front, whole, fun listed => uncleared ?_⟩
    simp [listed]

theorem Standing.of_cleared {history : List Entry} {exDate : Int} {planned : Planned}
    (standing : Standing (history ++ [.cleared exDate]) planned) :
    planned.credit.exDate ≠ exDate ∧ Standing history planned := by
  obtain ⟨before, since, split, uncleared⟩ := standing
  rcases List.eq_nil_or_concat since with rfl | ⟨front, entry, rfl⟩
  · have same := (List.append_inj' split rfl).2
    cases same
  · rw [List.concat_eq_append, ← List.cons_append, ← List.append_assoc] at split
    obtain ⟨whole, last⟩ := List.append_inj' split rfl
    cases last
    refine ⟨fun same => uncleared (by simp [same]), before, front, whole, fun listed =>
      uncleared (by simp [listed])⟩

/-- What the history says of the tables. -/
structure Kept (books : Books) (history : List Entry) : Prop where
  once : Once history
  recorded : ∀ planned, Standing history planned → Recorded books planned.credit

theorem Kept.start (books : Books) : Kept books [] := by
  refine ⟨?_, ?_⟩
  · intro earlier planned later split
    simp at split
  · rintro planned ⟨before, since, split, _⟩
    simp at split

/-- Writes of anything but dividends keep what is recorded. -/
theorem Kept.write {books after : Books} {history : List Entry} (kept : Kept books history)
    {writes : Writes} (written : writes.run books = .ok after) : Kept after history := by
  refine ⟨kept.once, fun planned standing => ?_⟩
  obtain ⟨row, found, stored⟩ := kept.recorded planned standing
  have same := writes.dividends books after written planned.credit.portfolioId
  rw [found, Option.map_some, Option.map_eq_some_iff] at same
  obtain ⟨later, listed, equal⟩ := same
  exact ⟨later, listed, by rw [equal, stored]⟩

/-- A credit is paid where none of its dividend is recorded, and is recorded then. -/
theorem Kept.pay {books after : Books} {history : List Entry} (kept : Kept books history)
    {planned : Planned} (paid : payCredit books planned.credit = .ok after) :
    Kept after (history ++ [.credited planned]) := by
  unfold payCredit at paid
  split at paid
  · cases paid
  rename_i row found
  split at paid
  · cases paid
  rename_i unpaid
  cases paid
  have fresh : ∀ other, Standing history other → other.credit.key ≠ planned.credit.key := by
    intro other standing same
    obtain ⟨stored, listed, recorded⟩ := kept.recorded other standing
    simp only [Credit.key, Prod.mk.injEq] at same
    rw [same.1, found] at listed
    cases listed
    rw [same.2.1, same.2.2] at recorded
    simp [recorded] at unpaid
  refine ⟨?_, ?_⟩
  · intro earlier plan later split
    rcases List.eq_nil_or_concat later with rfl | ⟨front, entry, rfl⟩
    · obtain ⟨whole, last⟩ := List.append_inj' split rfl
      cases last
      exact whole ▸ fresh
    · rw [List.concat_eq_append, ← List.cons_append, ← List.append_assoc] at split
      exact kept.once _ _ _ (List.append_inj' split rfl).1
  · intro plan standing
    obtain rfl | older := standing.of_credited
    · exact ⟨_, AList.lookup_insert _, AList.lookup_insert _⟩
    · obtain ⟨stored, listed, recorded⟩ := kept.recorded plan older
      by_cases own : plan.credit.portfolioId = planned.credit.portfolioId
      · rw [own, found] at listed
        cases listed
        have apart : (plan.credit.ticker, plan.credit.exDate) ≠
            (planned.credit.ticker, planned.credit.exDate) := by
          intro same
          obtain ⟨ticker, exDate⟩ := Prod.mk.inj same
          exact fresh plan older (by simp [Credit.key, own, ticker, exDate])
        exact ⟨_, by rw [own]; exact AList.lookup_insert _,
          (AList.lookup_insert_ne apart).trans recorded⟩
      · exact ⟨stored, by rw [AList.lookup_insert_ne own, listed], recorded⟩

/-- Cleaning up one portfolio takes back one ex-date only. -/
theorem cleanBook_recorded {zone : Zone} {day : Int} {books after : Books} {portfolioId : String}
    {credit : Credit} (cleaned : cleanBook zone day books portfolioId = .ok after)
    (other : credit.exDate ≠ day) (recorded : Recorded books credit) : Recorded after credit := by
  obtain ⟨row, found, stored⟩ := recorded
  unfold cleanBook at cleaned
  split at cleaned
  · cases cleaned
    exact ⟨row, found, stored⟩
  rename_i own listed
  split at cleaned
  · cases cleaned
    exact ⟨row, found, stored⟩
  split at cleaned
  · cases cleaned
  cases cleaned
  by_cases same : credit.portfolioId = portfolioId
  · rw [same, listed] at found
    cases found
    refine ⟨_, by rw [same]; exact AList.lookup_insert _, ?_⟩
    simp [LeagueBook.without, lookup_filterRows, stored, other]
  · exact ⟨row, by rw [AList.lookup_insert_ne same, found], stored⟩

theorem Kept.clean {zone : Zone} {books after : Books} {history : List Entry} {day : Int}
    (kept : Kept books history) (cleaned : rerunCleanup zone books day = .ok after) :
    Kept after (history ++ [.cleared day]) := by
  refine ⟨?_, ?_⟩
  · intro earlier plan later split
    rcases List.eq_nil_or_concat later with rfl | ⟨front, entry, rfl⟩
    · cases (List.append_inj' split rfl).2
    · rw [List.concat_eq_append, ← List.cons_append, ← List.append_assoc] at split
      exact kept.once _ _ _ (List.append_inj' split rfl).1
  · intro plan standing
    obtain ⟨other, older⟩ := standing.of_cleared
    exact foldlM_invariant (fun books => Recorded books plan.credit)
      (fun _ _ _ _ recorded stepped => cleanBook_recorded stepped other recorded)
      (kept.recorded plan older) cleaned

theorem Kept.payAll {books after : Books} {history : List Entry} (kept : Kept books history)
    {planned : List Planned}
    (paid : (planned.map Planned.credit).foldlM payCredit books = .ok after) :
    Kept after (history ++ planned.map .credited) := by
  induction planned generalizing books history with
  | nil =>
    cases paid
    simpa using kept
  | cons plan rest ih =>
    obtain ⟨next, first, remaining⟩ := foldlM_cons_ok.mp paid
    simpa using ih (kept.pay first) remaining

/-- A day-step keeps what the history says, and what it credits is owed. -/
theorem step_kept {zone : Zone} {league after : League} {history entries : List Entry}
    {call : DayStep} (kept : Kept league.books history)
    (stepped : step zone league call = .ok (after, entries)) :
    Kept after.books (history ++ entries) ∧
      ∀ planned, .credited planned ∈ entries → Entitled zone call planned := by
  unfold step at stepped
  split at stepped
  · cases stepped
    simpa using kept
  obtain ⟨⟨cleaned, cleared⟩, prepares, stepped⟩ := bind_ok.mp stepped
  obtain ⟨⟨paid, planned⟩, credits, stepped⟩ := bind_ok.mp stepped
  obtain ⟨done, writes, stepped⟩ := bind_ok.mp stepped
  cases stepped
  have first : Kept cleaned (history ++ cleared) ∧
      ∀ planned, Entry.credited planned ∉ cleared := by
    unfold prepared at prepares
    split at prepares
    · obtain ⟨books, cleans, same⟩ := map_ok.mp prepares
      cases same
      exact ⟨kept.clean cleans, by simp⟩
    · cases prepares
      exact ⟨by simpa using kept, by simp⟩
  unfold creditDividends at credits
  dsimp only at credits
  split at credits
  · cases credits
  obtain ⟨plans, planning, credits⟩ := bind_ok.mp credits
  obtain ⟨final, pays, credits⟩ := bind_ok.mp credits
  cases credits
  refine ⟨?_, ?_⟩
  · rw [← List.append_assoc]
    exact (first.1.payAll pays).write writes
  · intro plan listed
    rcases List.mem_append.mp listed with listed | listed
    · exact absurd listed (first.2 plan)
    · obtain ⟨made, inside, same⟩ := List.mem_map.mp listed
      cases same
      exact plannedCredits_entitled planning plan inside

/-- In every run, with whatever is published or written between the steps, a dividend is
credited only while no credit of it stands, each credit pays the dividend per share on the
quantity held at the close before the ex-date, and a credit that stands is recorded. -/
theorem dividends_credited_once (zone : Zone) (league : League) (turns : List Turn) :
    (∀ earlier planned later,
      (run zone league turns).2 = earlier ++ .credited planned :: later →
        (∃ call, .step call ∈ turns ∧ Entitled zone call planned) ∧
          ∀ other, Standing earlier other → other.credit.key ≠ planned.credit.key) ∧
      ∀ planned, Standing (run zone league turns).2 planned →
        Recorded (run zone league turns).1.books planned.credit := by
  have kept : Kept (run zone league turns).1.books (run zone league turns).2 ∧
      ∀ planned, .credited planned ∈ (run zone league turns).2 →
        ∃ call, .step call ∈ turns ∧ Entitled zone call planned := by
    induction turns using List.reverseRecOn with
    | nil => exact ⟨.start _, by simp [run]⟩
    | append_singleton turns turn ih =>
      have last : run zone league (turns ++ [turn]) = perform zone (run zone league turns) turn := by
        simp [run, List.foldl_append]
      obtain ⟨kept, owed⟩ := ih
      have older : ∀ planned, .credited planned ∈ (run zone league turns).2 →
          ∃ call, .step call ∈ turns ++ [turn] ∧ Entitled zone call planned := by
        intro planned listed
        obtain ⟨call, member, entitled⟩ := owed planned listed
        exact ⟨call, List.mem_append_left _ member, entitled⟩
      rw [last]
      cases turn with
      | step call =>
        rw [perform]
        cases stepped : step zone (run zone league turns).1 call with
        | error raised => exact ⟨kept, older⟩
        | ok result =>
          obtain ⟨after, entries⟩ := result
          obtain ⟨keeps, entitled⟩ := step_kept kept stepped
          refine ⟨keeps, fun planned listed => ?_⟩
          rcases List.mem_append.mp listed with listed | listed
          · exact older planned listed
          · exact ⟨call, by simp, entitled planned listed⟩
      | outside writes =>
        rw [perform]
        cases written : writes.run (run zone league turns).1.books with
        | error raised => exact ⟨kept, older⟩
        | ok books => exact ⟨kept.write written, older⟩
  refine ⟨fun earlier planned later split => ⟨kept.2 planned (by simp [split]), ?_⟩,
    kept.1.recorded⟩
  exact kept.1.once earlier planned later split

end TradingEngine.LeagueSteps
