import TradingEngine.PointInTime

/-!
# Views do not see the future

Two sets of data agree at a moment when everything that was available by then is the
same in both: every field of a bar, every derived row and every dividend. A view at
that moment then reads the same values from both, whatever they hold later.

A history is the exception. Its rows are the sessions on which the ticker has a bar, and
a bar is not tested for its availability unless one of its own fields is asked for. A
history of derived columns alone tells which later bars exist.
-/

namespace TradingEngine.PointInTime

open Runs

variable {Value : Type}

/-- A field that a bar carries and that was available at a moment, with its number. -/
def VisibleField (data : MarketData Value) (moment : Instant) (ticker : Ticker) (session : Date)
    (field : BarField) (number : Option ℚ) : Prop :=
  ∃ bar, data.source.get ticker session = some bar ∧ bar.carries field = true ∧
    available data.source.declaration bar field ≤ moment ∧ bar.read field = number

/-- A row of a derived input of a name. -/
def HasRow (data : MarketData Value) (name : String) (row : DerivedRow Value) : Prop :=
  ∃ input ∈ data.derivedInputs, input.name = name ∧ row ∈ input.rows

/-- Two sets of data that agree on all that was available at a moment. -/
structure Agree (first second : MarketData Value) (moment : Instant) : Prop where
  declaration : first.source.declaration = second.source.declaration
  sessions : first.source.sessions = second.source.sessions
  names : first.derivedInputs.map DerivedInput.name = second.derivedInputs.map DerivedInput.name
  fields : ∀ ticker session field number, VisibleField first moment ticker session field number ↔
    VisibleField second moment ticker session field number
  rows : ∀ name row, row.availableAt ≤ moment → (HasRow first name row ↔ HasRow second name row)
  dividends : ∀ row, row.availableAt ≤ moment →
    (row ∈ first.source.dividends ↔ row ∈ second.source.dividends)

variable {first second : MarketData Value} {decision : Decision}

theorem Agree.symm {moment : Instant} (agree : Agree first second moment) :
    Agree second first moment where
  declaration := agree.declaration.symm
  sessions := agree.sessions.symm
  names := agree.names.symm
  fields ticker session field number := (agree.fields ticker session field number).symm
  rows name row known := (agree.rows name row known).symm
  dividends row known := (agree.dividends row known).symm

theorem Agree.moment (agree : Agree first second (decisionAt first decision)) :
    decisionAt second decision = decisionAt first decision := by
  unfold decisionAt
  rw [agree.declaration]

section Fields

variable {data : MarketData Value} {ticker : Ticker} {target : Date}

/-- A number that is read was available, and is the one that the panel stores. -/
theorem barValue_ok {field : BarField} {number : Option ℚ}
    (read : barValue data decision ticker field target = .ok number) :
    data.source.value ticker target field = .ok number ∧
      ∃ bar, data.source.get ticker target = some bar ∧
        available data.source.declaration bar field ≤ decisionAt data decision ∧
          bar.read field = number := by
  unfold barValue at read
  split at read
  · cases read
  rename_i bar found
  split at read
  · cases read
  obtain ⟨stored, taken, read⟩ := bind_ok.mp read
  split at read
  · cases read
  rename_i known
  cases read
  refine ⟨taken, bar, found, not_lt.mp known, ?_⟩
  unfold PriceSource.value at taken
  simp only [found] at taken
  split at taken
  · exact Except.ok.inj taken
  · cases taken

theorem Bar.read_of_not_carries {bar : Bar} {field : BarField}
    (missing : bar.carries field = false) : bar.read field = none := by
  cases field with
  | barClose at_ =>
    simp only [Bar.carries, Option.isSome_eq_false_iff, Option.isNone_iff_eq_none] at missing
    simp only [Bar.read, missing, Option.join_none]
  | open_ => cases missing
  | daily _ => cases missing
  | funding => cases missing

/-- What one source shows of a field that was read there, the other shows as well. -/
theorem carried_number {field : BarField} {one two : Option ℚ}
    (agree : Agree first second (decisionAt first decision))
    (read : barValue first decision ticker field target = .ok one)
    (again : barValue second decision ticker field target = .ok two)
    {bar : Bar} (found : first.source.get ticker target = some bar)
    (carried : bar.carries field = true) : one = two := by
  obtain ⟨-, stored, same, known, number⟩ := barValue_ok read
  obtain ⟨-, other, there, -, otherNumber⟩ := barValue_ok again
  rw [found] at same
  cases same
  obtain ⟨seen, here, -, -, agrees⟩ :=
    (agree.fields ticker target field one).mp ⟨bar, found, carried, known, number⟩
  rw [there] at here
  cases here
  rw [← agrees, otherNumber]

theorem barValue_agree {field : BarField} {one two : Option ℚ}
    (agree : Agree first second (decisionAt first decision))
    (read : barValue first decision ticker field target = .ok one)
    (again : barValue second decision ticker field target = .ok two) : one = two := by
  obtain ⟨-, bar, found, -, number⟩ := barValue_ok read
  obtain ⟨-, other, there, -, otherNumber⟩ := barValue_ok again
  cases carried : bar.carries field with
  | true => exact carried_number agree read again found carried
  | false =>
    cases also : other.carries field with
    | true =>
      exact (carried_number (agree.moment ▸ agree.symm) again read there also).symm
    | false =>
      rw [← number, ← otherNumber, Bar.read_of_not_carries carried, Bar.read_of_not_carries also]

end Fields

section Derived

variable {data : MarketData Value} {name column : String} {session : Option Date}
  {ticker : Option Ticker}

/-- A derived value comes from an available row of the input that is named. -/
theorem derived_ok {found : Value}
    (read : derived data decision name column session ticker = .ok found) :
    ∃ input ∈ data.derivedInputs, input.name = name ∧ ∃ row ∈ input.rows,
      row.ticker = (if input.keyedByTicker then ticker else none) ∧
      row.session = session.getD decision.session ∧
      row.availableAt ≤ decisionAt data decision ∧ row.columns column = some found := by
  unfold derived at read
  dsimp only at read
  split at read
  · cases read
  split at read
  · cases read
  rename_i input named
  obtain ⟨stored, taken, read⟩ := bind_ok.mp read
  unfold DerivedInput.get at taken
  split at taken
  · cases taken
  cases taken
  split at read
  · cases read
  rename_i row keyed
  split at read
  · cases read
  rename_i known
  split at read
  · cases read
  split at read
  · cases read
  rename_i value held
  cases read
  have called := List.find?_some named
  have key := List.find?_some keyed
  simp only [decide_eq_true_eq] at called key
  exact ⟨input, List.mem_of_find?_eq_some named, called, row, List.mem_of_find?_eq_some keyed,
    key.1, key.2, not_lt.mp known, held⟩

theorem input_unique {one two : DerivedInput Value} (listed : one ∈ data.derivedInputs)
    (also : two ∈ data.derivedInputs) (same : one.name = two.name) : one = two :=
  List.inj_on_of_nodup_map data.distinct listed also same

theorem row_unique {input : DerivedInput Value} {one two : DerivedRow Value}
    (listed : one ∈ input.rows) (also : two ∈ input.rows) (named : one.ticker = two.ticker)
    (dated : one.session = two.session) : one = two := by
  have : Std.Symm fun (one two : DerivedRow Value) =>
      (one.ticker, one.session) ≠ (two.ticker, two.session) :=
    ⟨fun _ _ apart same => apart same.symm⟩
  by_contra differ
  have apart := input.oneRow.forall listed also differ
  exact apart (Prod.ext named dated)

theorem derived_agree {one two : Value} (agree : Agree first second (decisionAt first decision))
    (read : derived first decision name column session ticker = .ok one)
    (again : derived second decision name column session ticker = .ok two) : one = two := by
  obtain ⟨input, listed, named, row, inside, key, dated, known, held⟩ := derived_ok read
  obtain ⟨other, there, otherNamed, otherRow, otherInside, otherKey, otherDated, -, otherHeld⟩ :=
    derived_ok again
  -- the first row is one of the other input, which is then keyed in the same way
  obtain ⟨shared, member, sharedNamed, among⟩ :=
    (agree.rows name row known).mp ⟨input, listed, named, inside⟩
  obtain rfl := input_unique member there (sharedNamed.trans otherNamed.symm)
  have keyed : input.keyedByTicker = shared.keyedByTicker :=
    (input.uniform row inside).symm.trans (shared.uniform row among)
  rw [keyed] at key
  obtain rfl := row_unique among otherInside (key.trans otherKey.symm) (dated.trans otherDated.symm)
  exact Option.some.inj (held.symm.trans otherHeld)

end Derived

section Dividends

variable {data : MarketData Value} {ticker : Ticker} {after through : Date}

/-- Whether a dividend is one that is asked for. -/
def Asked (ticker : Ticker) (after through : Date) (row : Dividend) : Prop :=
  row.ticker = ticker ∧ after < row.exDate ∧ row.exDate ≤ through

/-- The dividends that are read are all that are asked for, and were all available. -/
theorem dividendRows_ok {rows : List Dividend}
    (read : dividendRows data decision ticker after through = .ok rows) :
    rows.Sublist data.source.dividends ∧
      (∀ row, row ∈ rows ↔ row ∈ data.source.dividends ∧ Asked ticker after through row) ∧
      ∀ row ∈ rows, row.availableAt ≤ decisionAt data decision := by
  unfold dividendRows at read
  dsimp only at read
  split at read
  · cases read
  split at read
  · cases read
  rename_i known
  cases read
  constructor
  · exact List.filter_sublist
  constructor
  · intro row
    rw [List.mem_filter, decide_eq_true_eq, Asked]
  · intro row member
    by_contra late
    apply known
    exact List.any_eq_true.mpr ⟨row, member, decide_eq_true (not_le.mp late)⟩

/-- Every dividend that one source shows is shown by the other. -/
theorem dividendRows_subset {one two : List Dividend}
    (agree : Agree first second (decisionAt first decision))
    (read : dividendRows first decision ticker after through = .ok one)
    (again : dividendRows second decision ticker after through = .ok two) :
    ∀ row ∈ one, row ∈ two := by
  intro row member
  obtain ⟨-, here, known⟩ := dividendRows_ok read
  obtain ⟨-, there, -⟩ := dividendRows_ok again
  obtain ⟨listed, asked⟩ := (here row).mp member
  have also := (agree.dividends row (known row member)).mp listed
  exact (there row).mpr ⟨also, asked⟩

theorem dividendRows_agree {one two : List Dividend}
    (agree : Agree first second (decisionAt first decision))
    (read : dividendRows first decision ticker after through = .ok one)
    (again : dividendRows second decision ticker after through = .ok two) : one = two := by
  have sorted := first.source.inOrder.sublist (dividendRows_ok read).1
  have alsoSorted := second.source.inOrder.sublist (dividendRows_ok again).1
  have same : one.Perm two := by
    apply (List.perm_ext_iff_of_nodup (sorted.imp ?_) (alsoSorted.imp ?_)).mpr
    · intro row
      constructor
      · exact dividendRows_subset agree read again row
      · exact dividendRows_subset (agree.moment ▸ agree.symm) again read row
    all_goals
      rintro before later less rfl
      exact lt_irrefl _ less
  apply same.eq_of_pairwise _ sorted alsoSorted
  intro before later _ _ less more
  exact absurd more less.asymm

end Dividends

theorem value_agree {ticker : Ticker} {field : Field} {session : Option Date}
    {one two : Reading Value} (agree : Agree first second (decisionAt first decision))
    (read : value first decision ticker field session = .ok one)
    (again : value second decision ticker field session = .ok two) : one = two := by
  unfold value at read again
  dsimp only at read again
  split at read
  · cases read
  rename_i inside
  rw [if_neg inside] at again
  cases field with
  | bar field =>
    obtain ⟨number, here, rfl⟩ := map_ok.mp read
    obtain ⟨other, there, rfl⟩ := map_ok.mp again
    rw [barValue_agree agree here there]
  | derived name column =>
    obtain ⟨found, here, rfl⟩ := map_ok.mp read
    obtain ⟨other, there, rfl⟩ := map_ok.mp again
    rw [derived_agree agree here there]
  | other name => cases read

section Elements

variable {α β ε : Type} {compute again : α → Except ε β} {elements : List α}
  {values others : List β}

/-- A computation that follows another wherever that one succeeds gives the same values. -/
theorem mapM_follows (computed : elements.mapM compute = .ok values)
    (follows : ∀ element ∈ elements, ∀ value ∈ values,
      compute element = .ok value → again element = .ok value) :
    elements.mapM again = .ok values := by
  induction elements generalizing values with
  | nil => exact computed
  | cons first rest ih =>
    rw [List.mapM_cons] at computed
    obtain ⟨value, one, computed⟩ := bind_ok.mp computed
    obtain ⟨later, also, computed⟩ := bind_ok.mp computed
    cases computed
    have next := ih also fun element listed found member =>
      follows element (List.mem_cons_of_mem _ listed) found (List.mem_cons_of_mem _ member)
    rw [List.mapM_cons, follows first List.mem_cons_self value List.mem_cons_self one, next]
    rfl

/-- Two computations that agree wherever both succeed give the same values. -/
theorem mapM_agree (computed : elements.mapM compute = .ok values)
    (also : elements.mapM again = .ok others)
    (agree : ∀ element ∈ elements, ∀ one two,
      compute element = .ok one → again element = .ok two → one = two) : values = others := by
  have follows : elements.mapM again = .ok values := by
    apply mapM_follows computed
    intro element listed value _ one
    obtain ⟨other, -, two⟩ := mapM_value also element listed
    rw [agree element listed value other one two, two]
  exact Except.ok.inj (follows.symm.trans also)

theorem mapM_recovers {tell : β → α} (computed : elements.mapM compute = .ok values)
    (tells : ∀ element value, compute element = .ok value → tell value = element) :
    values.map tell = elements := by
  induction elements generalizing values with
  | nil =>
    cases computed
    rfl
  | cons first rest ih =>
    rw [List.mapM_cons] at computed
    obtain ⟨value, one, computed⟩ := bind_ok.mp computed
    obtain ⟨later, also, computed⟩ := bind_ok.mp computed
    cases computed
    rw [List.map_cons, tells first value one, ih also]

end Elements

section Histories

variable {data : MarketData Value} {ticker : Ticker} {fields : List Field} {day : Date}
  {before : Option Date} {limit : Option Int}

theorem viewRow_session {row : HistoryRow Value}
    (read : viewRow data decision ticker fields day = .ok row) : row.session = day := by
  obtain ⟨values, -, rfl⟩ := map_ok.mp read
  rfl

theorem panelRow_session {row : HistoryRow Value}
    (read : panelRow data ticker fields day = .ok row) : row.session = day := by
  obtain ⟨values, -, rfl⟩ := map_ok.mp read
  rfl

theorem viewRow_agree {one two : HistoryRow Value}
    (agree : Agree first second (decisionAt first decision))
    (read : viewRow first decision ticker fields day = .ok one)
    (again : viewRow second decision ticker fields day = .ok two) : one = two := by
  obtain ⟨values, here, rfl⟩ := map_ok.mp read
  obtain ⟨others, there, rfl⟩ := map_ok.mp again
  suffices same : values = others by rw [same]
  apply mapM_agree here there
  intro field _ left right taken also
  obtain ⟨reading, onLeft, rfl⟩ := map_ok.mp taken
  obtain ⟨other, onRight, rfl⟩ := map_ok.mp also
  rw [value_agree agree onLeft onRight]

/-- A row of the panel whose fields the view reads afterwards is the row of the view. -/
theorem panelRow_viewed {row : HistoryRow Value}
    (stored : panelRow data ticker fields day = .ok row)
    (checked : ∀ field ∈ fields,
      ∃ reading, value data decision ticker field (some day) = .ok reading) :
    viewRow data decision ticker fields day = .ok row := by
  obtain ⟨values, here, rfl⟩ := map_ok.mp stored
  apply map_ok.mpr
  refine ⟨values, ?_, rfl⟩
  apply mapM_follows here
  intro field listed entry _ taken
  obtain ⟨reading, read⟩ := checked field listed
  cases field with
  | derived name column => cases taken
  | other name => cases taken
  | bar column =>
    obtain ⟨number, found, rfl⟩ := map_ok.mp taken
    rw [read]
    unfold value at read
    dsimp only at read
    split at read
    · cases read
    obtain ⟨same, shown, rfl⟩ := map_ok.mp read
    have also := (barValue_ok shown).1
    simp only [Option.getD_some] at also
    rw [found] at also
    cases also
    rfl

theorem history_ok {rows : List (HistoryRow Value)}
    (read : history data decision ticker fields before limit = .ok rows) :
    ((span data decision fields before limit).filter (data.source.present ticker)).mapM
      (viewRow data decision ticker fields) = .ok rows := by
  unfold history at read
  dsimp only at read
  split at read
  · exact read
  obtain ⟨stored, panel, read⟩ := bind_ok.mp read
  obtain ⟨checks, checked, rfl⟩ := map_ok.mp read
  apply mapM_follows panel
  intro day _ row member found
  apply panelRow_viewed found
  obtain ⟨readings, -, passed⟩ := mapM_value checked row member
  intro field named
  obtain ⟨reading, -, shown⟩ := mapM_value passed field named
  rw [panelRow_session found] at shown
  exact ⟨reading, shown⟩

theorem span_agree {moment : Instant} (agree : Agree first second moment) :
    span second decision fields before limit = span first decision fields before limit := by
  unfold span
  rw [agree.sessions]

/-- Histories of agreeing data are equal if the same sessions have bars. -/
theorem history_agree_iff {one two : List (HistoryRow Value)}
    (agree : Agree first second (decisionAt first decision))
    (read : history first decision ticker fields before limit = .ok one)
    (again : history second decision ticker fields before limit = .ok two) :
    one = two ↔ ∀ day ∈ span first decision fields before limit,
      first.source.present ticker day = second.source.present ticker day := by
  have here := history_ok read
  have there := history_ok again
  rw [span_agree agree] at there
  constructor
  · rintro rfl
    have days := (mapM_recovers here fun _ _ => viewRow_session).symm.trans
      (mapM_recovers there fun _ _ => viewRow_session)
    intro day spanned
    apply Bool.eq_iff_iff.mpr
    have same : day ∈ (span first decision fields before limit).filter
        (first.source.present ticker) ↔ day ∈ (span first decision fields before limit).filter
        (second.source.present ticker) := by rw [days]
    simpa only [List.mem_filter, spanned, true_and] using same
  · intro same
    rw [← List.filter_congr same] at there
    apply mapM_agree here there
    intro day _ left right taken also
    exact viewRow_agree agree taken also

/-- The opening of a session tells which bars it has. -/
theorem present_of_opened (agree : Agree first second (decisionAt first decision))
    (opened : first.source.declaration.localMoment day first.source.declaration.sessionOpen ≤
      decisionAt first decision)
    (present : first.source.present ticker day = true) :
    second.source.present ticker day = true := by
  obtain ⟨bar, found⟩ := Option.isSome_iff_exists.mp present
  have dated : bar.session = day := by
    have keyed := List.find?_some found
    simp only [decide_eq_true_eq] at keyed
    exact keyed.2
  have visible : VisibleField first (decisionAt first decision) ticker day .open_ bar.open_ := by
    refine ⟨bar, found, rfl, ?_, rfl⟩
    rw [available, dated]
    exact opened
  obtain ⟨other, there, -⟩ := (agree.fields ticker day .open_ bar.open_).mp visible
  exact Option.isSome_iff_exists.mpr ⟨other, there⟩

/-- A history that spans no session before its opening does not see the future. -/
theorem history_agree_of_opened {one two : List (HistoryRow Value)}
    (agree : Agree first second (decisionAt first decision))
    (read : history first decision ticker fields before limit = .ok one)
    (again : history second decision ticker fields before limit = .ok two)
    (opened : ∀ day ∈ span first decision fields before limit,
      first.source.declaration.localMoment day first.source.declaration.sessionOpen ≤
        decisionAt first decision) : one = two := by
  apply (history_agree_iff agree read again).mpr
  intro day spanned
  apply Bool.eq_iff_iff.mpr
  constructor
  · exact present_of_opened agree (opened day spanned)
  · apply present_of_opened (agree.moment ▸ agree.symm)
    rw [← agree.declaration, agree.moment]
    exact opened day spanned

end Histories

/-- Answers from agreeing data are equal, histories if the same sessions have bars. -/
theorem answer_agree_iff {call : Call} {one two : Answer Value}
    (agree : Agree first second (decisionAt first decision))
    (read : answer first decision call = .ok one)
    (again : answer second decision call = .ok two) :
    one = two ↔ ∀ ticker fields before limit, call = .history ticker fields before limit →
      ∀ day ∈ span first decision fields before limit,
        first.source.present ticker day = second.source.present ticker day := by
  cases call with
  | history ticker fields before limit =>
    obtain ⟨rows, here, rfl⟩ := map_ok.mp read
    obtain ⟨others, there, rfl⟩ := map_ok.mp again
    rw [Answer.rows.injEq, history_agree_iff agree here there]
    constructor
    · rintro same _ _ _ _ ⟨⟩
      exact same
    · intro same
      exact same ticker fields before limit rfl
  | value ticker field session =>
    obtain ⟨reading, here, rfl⟩ := map_ok.mp read
    obtain ⟨other, there, rfl⟩ := map_ok.mp again
    have same := value_agree agree here there
    constructor
    · rintro _ _ _ _ _ ⟨⟩
    · intro _
      rw [same]
  | derived name column session ticker =>
    obtain ⟨found, here, rfl⟩ := map_ok.mp read
    obtain ⟨other, there, rfl⟩ := map_ok.mp again
    have same := derived_agree agree here there
    constructor
    · rintro _ _ _ _ _ ⟨⟩
    · intro _
      rw [same]
  | dividendRows ticker after through =>
    obtain ⟨rows, here, rfl⟩ := map_ok.mp read
    obtain ⟨others, there, rfl⟩ := map_ok.mp again
    have same := dividendRows_agree agree here there
    constructor
    · rintro _ _ _ _ _ ⟨⟩
    · intro _
      rw [same]

section Morning

def plainBar (ticker : Ticker) (session : Date) : Bar :=
  { ticker, session, open_ := some 10, daily := fun _ => some 10, funding := none,
    fundingAt := none, intradayCloses := [] }

def newYork : Declaration :=
  { localMoment := fun day minutes => 1440 * day + minutes, sessionOpen := 570,
    sessionClose := 960, dailyBarLag := 0 }

/-- Two sessions of one ticker and the second session of another. -/
def tradedBoth : PriceSource where
  declaration := newYork
  sessions := [1, 2]
  bars := [plainBar "A" 1, plainBar "A" 2, plainBar "B" 2]
  dividends := []
  ordered := by decide
  dated := by decide
  oneBar := by decide
  inOrder := .nil

/-- The same, if the first ticker does not trade on the second session. -/
def tradedOne : PriceSource where
  declaration := newYork
  sessions := [1, 2]
  bars := [plainBar "A" 1, plainBar "B" 2]
  dividends := []
  ordered := by decide
  dated := by decide
  oneBar := by decide
  inOrder := .nil

/-- A signal for both sessions that is known from the start. -/
def signal : DerivedInput Bool where
  name := "signal"
  availableAtColumn := "available_at"
  rows := [⟨some "A", 1, 0, fun _ => some true⟩, ⟨some "A", 2, 0, fun _ => some true⟩]
  keyedByTicker := true
  uniform := by decide
  oneRow := by decide

def withSignal (source : PriceSource) : MarketData Bool where
  source := source
  derivedInputs := [signal]
  distinct := List.nodup_singleton _

/-- The second session before its opening. -/
def secondMorning : Decision := ⟨2, .preOpen, 2, false, by decide⟩

/-- No field of the second session is visible before its opening. -/
theorem earlier_of_visible {ticker : Ticker} {day : Date} {field : BarField}
    (carried : (plainBar ticker day).carries field = true)
    (known : available newYork (plainBar ticker day) field ≤
      decisionMoment secondMorning.session secondMorning.decisionTime newYork) : day < 2 := by
  change available newYork (plainBar ticker day) field ≤ 3449 at known
  cases field with
  | open_ =>
    have opening : 1440 * day + 570 ≤ (3449 : ℤ) := known
    linarith
  | daily field =>
    have closing : 1440 * day + 960 + 0 ≤ (3449 : ℤ) := known
    linarith
  | funding =>
    have closing : 1440 * day + 960 + 0 ≤ (3449 : ℤ) := known
    linarith
  | barClose at_ => cases carried

/-- What is visible that morning is visible in every source with the same earlier bars. -/
theorem morning_shown {source other : PriceSource} (declared : source.declaration = newYork)
    (also : other.declaration = newYork)
    (plain : ∀ bar ∈ source.bars, ∃ ticker day, bar = plainBar ticker day ∧
      (day < 2 → other.get ticker day = some (plainBar ticker day)))
    {moment : Instant}
    (morning : moment = decisionMoment secondMorning.session secondMorning.decisionTime newYork)
    {ticker : Ticker} {session : Date} {field : BarField} {number : Option ℚ}
    (visible : VisibleField (withSignal source) moment ticker session field number) :
    VisibleField (withSignal other) moment ticker session field number := by
  obtain ⟨bar, found, carried, known, read⟩ := visible
  change available source.declaration bar field ≤ moment at known
  rw [declared, morning] at known
  obtain ⟨name, day, rfl, kept⟩ := plain bar (List.mem_of_find?_eq_some found)
  have keyed := List.find?_some found
  simp only [decide_eq_true_eq] at keyed
  obtain ⟨rfl, rfl⟩ := keyed
  refine ⟨_, kept (earlier_of_visible carried known), carried, ?_, read⟩
  change available other.declaration _ field ≤ moment
  rw [also, morning]
  exact known

theorem morning_agree : Agree (withSignal tradedBoth) (withSignal tradedOne)
    (decisionAt (withSignal tradedBoth) secondMorning) where
  declaration := rfl
  sessions := rfl
  names := rfl
  fields ticker session field number := by
    constructor
    · apply morning_shown rfl rfl _ rfl
      intro bar listed
      fin_cases listed
      · exact ⟨"A", 1, rfl, fun _ => rfl⟩
      · exact ⟨"A", 2, rfl, fun earlier => absurd earlier (lt_irrefl _)⟩
      · exact ⟨"B", 2, rfl, fun earlier => absurd earlier (lt_irrefl _)⟩
    · apply morning_shown rfl rfl _ rfl
      intro bar listed
      fin_cases listed
      · exact ⟨"A", 1, rfl, fun _ => rfl⟩
      · exact ⟨"B", 2, rfl, fun earlier => absurd earlier (lt_irrefl _)⟩
  rows _ _ _ := Iff.rfl
  dividends _ _ := Iff.rfl

/-- The opens of the sessions before are the same in both. -/
theorem yesterday_agrees : ∃ one two : Answer Bool,
    answer (withSignal tradedBoth) secondMorning
      (.history "A" [.bar .open_] (some 2) none) = .ok one ∧
    answer (withSignal tradedOne) secondMorning
      (.history "A" [.bar .open_] (some 2) none) = .ok two ∧ one = two := by
  have read : answer (withSignal tradedBoth) secondMorning
      (.history "A" [.bar .open_] (some 2) none) =
        .ok (.rows [⟨1, [(.bar .open_, .number (some 10))]⟩]) := rfl
  have again : answer (withSignal tradedOne) secondMorning
      (.history "A" [.bar .open_] (some 2) none) =
        .ok (.rows [⟨1, [(.bar .open_, .number (some 10))]⟩]) := rfl
  refine ⟨_, _, read, again, (answer_agree_iff morning_agree read again).mpr ?_⟩
  rintro _ _ _ _ ⟨⟩ day spanned
  have same : ∀ day ∈ span (withSignal tradedBoth) secondMorning [.bar .open_] (some 2) none,
      tradedBoth.present "A" day = tradedOne.present "A" day := by decide
  exact same day spanned

/-- The history of the session before spans no later one. -/
theorem yesterday_opened : ∃ one two : List (HistoryRow Bool),
    history (withSignal tradedBoth) secondMorning "A" [.bar .open_] (some 2) none = .ok one ∧
    history (withSignal tradedOne) secondMorning "A" [.bar .open_] (some 2) none = .ok two ∧
    one = two := by
  have opened : ∀ day ∈ span (withSignal tradedBoth) secondMorning [.bar .open_] (some 2) none,
      newYork.localMoment day newYork.sessionOpen ≤
        decisionAt (withSignal tradedBoth) secondMorning := by decide +kernel
  have read : history (withSignal tradedBoth) secondMorning "A" [.bar .open_] (some 2) none =
    .ok [⟨1, [(.bar .open_, .number (some 10))]⟩] := rfl
  have again : history (withSignal tradedOne) secondMorning "A" [.bar .open_] (some 2) none =
    .ok [⟨1, [(.bar .open_, .number (some 10))]⟩] := rfl
  exact ⟨_, _, read, again, history_agree_of_opened morning_agree read again opened⟩

/-- The signal's history tells before the opening whether the ticker trades that day. -/
theorem signal_leaks : ∃ one two : Answer Bool,
    Agree (withSignal tradedBoth) (withSignal tradedOne)
      (decisionAt (withSignal tradedBoth) secondMorning) ∧
    answer (withSignal tradedBoth) secondMorning
      (.history "A" [.derived "signal" "value"] none none) = .ok one ∧
    answer (withSignal tradedOne) secondMorning
      (.history "A" [.derived "signal" "value"] none none) = .ok two ∧ one ≠ two := by
  refine ⟨.rows [⟨1, [(.derived "signal" "value", .derived true)]⟩,
    ⟨2, [(.derived "signal" "value", .derived true)]⟩],
    .rows [⟨1, [(.derived "signal" "value", .derived true)]⟩], morning_agree, ?_, ?_, ?_⟩
  · rfl
  · rfl
  · intro same
    cases same

end Morning

end TradingEngine.PointInTime
