import TradingEngine.Nyse

/-!
# Which daily bars are admitted

A bar is judged by scalar rules only: four finite positive prices, a range that contains
the open and the close, and a whole volume that fits a BIGINT. Its ticker is in
canonical form and its date is a session. Python and SQL judge the same bars. One fault
is excused: the open of a bar that was last fetched on or before its own New York date
may lie outside its range, until the bar is fetched again.

Prices are exact. A numeral given as a price is the number that it reads as.
-/

namespace TradingEngine.PriceStore

abbrev Date := Int
abbrev Instant := Int

/-- What lies outside the store: the time-zone database, the session calendar and the
text functions of Python. -/
structure World where
  zone : Nyse.Zone
  session : Date → Bool
  strip : String → String
  upper : String → String

/-- A value of a frame or a column. -/
inductive Cell where
  | null
  | number (value : ℚ)
  | nonfinite (name : String)
  | text (characters : String)
  deriving DecidableEq

inductive Field where
  | opening | high | low | close

/-- The five figures of a bar. -/
structure Quote where
  opening : Cell
  high : Cell
  low : Cell
  close : Cell
  volume : Cell
  deriving DecidableEq

def Quote.price (quote : Quote) : Field → Cell
  | .opening => quote.opening
  | .high => quote.high
  | .low => quote.low
  | .close => quote.close

/-- The order in which the prices are read. -/
def ohlc : List Field := [.opening, .high, .low, .close]

inductive Fault where
  | null (field : Field)
  | nonfinite (field : Field)
  | nonpositive (field : Field)
  | highGeometry
  | lowGeometry
  | volumeNegative
  | volumeUnrepresentable
  | invalidTicker
  | invalidDate
  | offCalendar
  | conflictingDuplicate
  | identicalDuplicate
  | provisionalReplacementSkipped

def Field.name : Field → String
  | .opening => "open"
  | .high => "high"
  | .low => "low"
  | .close => "close"

/-- How a fault is written down. -/
def Fault.name : Fault → String
  | .null field => field.name ++ "_null"
  | .nonfinite field => field.name ++ "_nonfinite"
  | .nonpositive field => field.name ++ "_nonpositive"
  | .highGeometry => "high_geometry"
  | .lowGeometry => "low_geometry"
  | .volumeNegative => "volume_negative"
  | .volumeUnrepresentable => "volume_unrepresentable"
  | .invalidTicker => "invalid_ticker"
  | .invalidDate => "invalid_date"
  | .offCalendar => "off_calendar"
  | .conflictingDuplicate => "conflicting_duplicate"
  | .identicalDuplicate => "identical_duplicate"
  | .provisionalReplacementSkipped => "provisional_replacement_skipped"

/-- The price that a cell holds, if it is a usable one. -/
def Cell.price : Cell → Option ℚ
  | .number value => if 0 < value then some value else none
  | _ => none

/-- What is wrong with one price. -/
def priceFaults (field : Field) : Cell → List Fault
  | .null => [.null field]
  | .number value => if value ≤ 0 then [.nonpositive field] else []
  | .nonfinite _ | .text _ => [.nonfinite field]

/-- The range contains the open and the close. It is looked at once all prices are usable. -/
def geometryFaults (quote : Quote) : List Fault :=
  match quote.opening.price, quote.high.price, quote.low.price, quote.close.price with
  | some opening, some high, some low, some close =>
    (if high < max (max opening close) low then [.highGeometry] else []) ++
      (if min (min opening close) high < low then [.lowGeometry] else [])
  | _, _, _, _ => []

/-- The largest BIGINT. -/
def bigint : Int := 2 ^ 63 - 1

/-- Drop the fraction of a number. -/
def truncate (value : ℚ) : Int := if 0 ≤ value then ⌊value⌋ else ⌈value⌉

/-- A whole volume between zero and the largest BIGINT. A text is never equal to the
number that it reads as. -/
def volumeFaults : Cell → List Fault
  | .number value =>
    if truncate value < 0 then [.volumeNegative]
    else if bigint < truncate value ∨ (truncate value : ℚ) ≠ value then [.volumeUnrepresentable]
    else []
  | .text characters =>
    if characters.toInt?.any (· < 0) then [.volumeNegative] else [.volumeUnrepresentable]
  | .null | .nonfinite _ => [.volumeUnrepresentable]

/-- Scalar invariants only: unusual returns and flat trades are valid. -/
def priceBarReasons (quote : Quote) (checkVolume : Bool) : List Fault :=
  ohlc.flatMap (fun field => priceFaults field (quote.price field)) ++ geometryFaults quote ++
    (if checkVolume then volumeFaults quote.volume else [])

/-- A ticker as it is given: a string, or another object with its text. -/
inductive Label where
  | name (characters : String)
  | other (text : String)
  deriving DecidableEq

def Label.text : Label → String
  | .name characters => characters
  | .other text => text

/-- A date as it is given: an unreadable value with its text, or a day with or without a
time of day. -/
inductive Stamp where
  | unreadable (text : String)
  | reading (day : Date) (midnight : Bool)
  deriving DecidableEq

def Stamp.day : Stamp → Option Date
  | .unreadable _ => none
  | .reading day _ => some day

/-- A row as it is judged. -/
structure Observation where
  ticker : Label
  date : Stamp
  quote : Quote
  source : String
  fetchedAt : Option Instant
  deriving DecidableEq

variable (world : World)

def tickerFaults : Label → List Fault
  | .name characters =>
    if world.strip characters = "" ∨ characters ≠ world.upper (world.strip characters) then
      [.invalidTicker]
    else []
  | .other _ => [.invalidTicker]

def dateFaults : Stamp → List Fault
  | .reading day true => if world.session day then [] else [.offCalendar]
  | .reading _ false | .unreadable _ => [.invalidDate]

/-- Everything that is wrong with a daily row. -/
def observationReasons (row : Observation) : List Fault :=
  priceBarReasons row.quote true ++ tickerFaults world row.ticker ++ dateFaults world row.date

/-- A daily bar's last fetch fell on or before its New York session date. A bar dated
before the newest session is stale and treated as settled. -/
def barIsProvisional (day : Option Date) (fetchedAt : Option Instant)
    (latestSession : Option Date) : Bool :=
  match fetchedAt, day with
  | some fetched, some day =>
    !latestSession.any (fun latest => decide (day < latest)) && decide (world.zone.localDate fetched ≤ day)
  | _, _ => false

def Fault.geometric : Fault → Bool
  | .highGeometry | .lowGeometry => true
  | _ => false

/-- The bar's only scalar fault is its open lying outside the range. -/
def openFaultOnly (quote : Quote) (reasons : List Fault) : Bool :=
  !reasons.isEmpty && reasons.all Fault.geometric &&
    (priceBarReasons { quote with opening := quote.close } false).isEmpty

/-- A provisional daily bar whose only fault is its open's geometry. -/
def provisionalOpenOnlyFault (row : Observation) (reasons : List Fault)
    (latestSession : Option Date) : Bool :=
  openFaultOnly row.quote reasons &&
    barIsProvisional world row.date.day row.fetchedAt latestSession

/-- SQL twin of a provisional bar without a newest session. -/
def neverSettledSql (day : Date) (fetchedAt : Option Instant) : Bool :=
  fetchedAt.any fun fetched => decide (world.zone.localDate fetched ≤ day)

/-- SQL counterpart of scalar admission. -/
def priceBarSql (quote : Quote) : Bool :=
  match quote with
  | ⟨.number opening, .number high, .number low, .number close, .number volume⟩ =>
    decide (0 < opening ∧ 0 < high ∧ 0 < low ∧ 0 < close ∧ 0 ≤ volume ∧
      volume = truncate volume ∧ volume ≤ bigint ∧ opening ≤ high ∧ close ≤ high ∧ low ≤ high ∧
        low ≤ opening ∧ low ≤ close)
  | _ => false

/-- The scalar faults that the cleanup looks for. -/
def hardInvalidSql (quote : Quote) : Bool :=
  ohlc.any (fun field => (quote.price field).price.isNone) || !(geometryFaults quote).isEmpty ||
    (match quote.volume with
    | .number volume => decide (volume < 0)
    | _ => true)

section Figures

/-- Five numbers. -/
structure Figures where
  opening : ℚ
  high : ℚ
  low : ℚ
  close : ℚ
  volume : Int

def Figures.quote (figures : Figures) : Quote :=
  ⟨.number figures.opening, .number figures.high, .number figures.low, .number figures.close,
    .number figures.volume⟩

/-- The same figures with the close in place of the open. -/
def Figures.closed (figures : Figures) : Figures := { figures with opening := figures.close }

/-- Figures that are usable whatever the open is. -/
structure Figures.Ranged (figures : Figures) : Prop where
  opening : 0 < figures.opening
  low : 0 < figures.low
  lowClose : figures.low ≤ figures.close
  closeHigh : figures.close ≤ figures.high
  volume : 0 ≤ figures.volume
  bounded : figures.volume ≤ bigint

/-- The open lies in the range. -/
def Figures.OpenInside (figures : Figures) : Prop :=
  figures.low ≤ figures.opening ∧ figures.opening ≤ figures.high

theorem Figures.Ranged.close {figures : Figures} (ranged : figures.Ranged) :
    0 < figures.close := ranged.low.trans_le ranged.lowClose

theorem Figures.Ranged.high {figures : Figures} (ranged : figures.Ranged) :
    0 < figures.high := ranged.close.trans_le ranged.closeHigh

theorem priceFaults_eq_nil {field : Field} {cell : Cell} :
    priceFaults field cell = [] ↔ ∃ value, 0 < value ∧ cell = .number value := by
  cases cell with
  | null | nonfinite _ | text _ => simp [priceFaults]
  | number value => simp [priceFaults]

theorem truncate_intCast (volume : Int) : truncate volume = volume := by
  simp [truncate]

theorem volumeFaults_eq_nil {cell : Cell} :
    volumeFaults cell = [] ↔ ∃ volume : Int, 0 ≤ volume ∧ volume ≤ bigint ∧
      cell = .number volume := by
  cases cell with
  | null | nonfinite _ => simp [volumeFaults]
  | text characters =>
    simp only [volumeFaults]
    split <;> simp
  | number value =>
    simp only [volumeFaults]
    constructor
    · intro none
      split at none
      · cases none
      · split at none
        · cases none
        · rename_i nonneg fits
          push Not at nonneg fits
          exact ⟨truncate value, nonneg, fits.1, by rw [fits.2]⟩
    · rintro ⟨volume, nonneg, bounded, same⟩
      obtain rfl : value = volume := by simpa using same
      rw [truncate_intCast, if_neg (not_lt.mpr nonneg), if_neg (by simpa using bounded)]

/-- Five usable numbers have at most a range fault. -/
theorem priceBarReasons_figures {figures : Figures} (opening : 0 < figures.opening)
    (high : 0 < figures.high) (low : 0 < figures.low) (close : 0 < figures.close)
    (volume : volumeFaults (.number figures.volume) = []) (checkVolume : Bool) :
    priceBarReasons figures.quote checkVolume = geometryFaults figures.quote := by
  have sound : ∀ field ∈ ohlc, priceFaults field (figures.quote.price field) = [] := by
    intro field _
    apply priceFaults_eq_nil.mpr
    cases field with
    | opening => exact ⟨_, opening, rfl⟩
    | high => exact ⟨_, high, rfl⟩
    | low => exact ⟨_, low, rfl⟩
    | close => exact ⟨_, close, rfl⟩
  have counted : volumeFaults figures.quote.volume = [] := volume
  rw [priceBarReasons, List.flatMap_eq_nil_iff.mpr sound, counted]
  cases checkVolume <;> simp

/-- A quote without price and volume faults consists of usable numbers. -/
theorem exists_figures {quote : Quote}
    (priced : ohlc.flatMap (fun field => priceFaults field (quote.price field)) = [])
    (counted : volumeFaults quote.volume = []) :
    ∃ figures : Figures, quote = figures.quote ∧ 0 < figures.opening ∧ 0 < figures.high ∧
      0 < figures.low ∧ 0 < figures.close ∧ 0 ≤ figures.volume ∧ figures.volume ≤ bigint := by
  have usable (field : Field) : ∃ value, 0 < value ∧ quote.price field = .number value := by
    apply priceFaults_eq_nil.mp
    exact List.flatMap_eq_nil_iff.mp priced field (by cases field <;> simp [ohlc])
  obtain ⟨opening, openingPositive, openingRead⟩ := usable .opening
  obtain ⟨high, highPositive, highRead⟩ := usable .high
  obtain ⟨low, lowPositive, lowRead⟩ := usable .low
  obtain ⟨close, closePositive, closeRead⟩ := usable .close
  obtain ⟨volume, nonneg, bounded, volumeRead⟩ := volumeFaults_eq_nil.mp counted
  refine ⟨⟨opening, high, low, close, volume⟩, ?_, openingPositive, highPositive, lowPositive,
    closePositive, nonneg, bounded⟩
  cases quote
  cases openingRead
  cases highRead
  cases lowRead
  cases closeRead
  cases volumeRead
  rfl

/-- The range of usable figures is sound when it contains the open and the close. -/
theorem geometryFaults_eq_nil {figures : Figures} (opening : 0 < figures.opening)
    (high : 0 < figures.high) (low : 0 < figures.low) (close : 0 < figures.close) :
    geometryFaults figures.quote = [] ↔
      (figures.low ≤ figures.close ∧ figures.close ≤ figures.high) ∧ figures.OpenInside := by
  simp only [geometryFaults, Figures.quote, Cell.price, opening, high, low, close, if_true,
    List.append_eq_nil_iff, ite_eq_right_iff, List.cons_ne_nil, imp_false, not_lt, max_le_iff,
    le_min_iff, Figures.OpenInside]
  constructor
  · rintro ⟨⟨⟨openHigh, closeHigh⟩, -⟩, ⟨lowOpen, lowClose⟩, -⟩
    exact ⟨⟨lowClose, closeHigh⟩, lowOpen, openHigh⟩
  · rintro ⟨⟨lowClose, closeHigh⟩, lowOpen, openHigh⟩
    have lowHigh := lowClose.trans closeHigh
    exact ⟨⟨⟨openHigh, closeHigh⟩, lowHigh⟩, ⟨lowOpen, lowClose⟩, lowHigh⟩

theorem Figures.Ranged.counted {figures : Figures} (ranged : figures.Ranged) :
    volumeFaults (.number figures.volume) = [] :=
  volumeFaults_eq_nil.mpr ⟨_, ranged.volume, ranged.bounded, rfl⟩

/-- Without a scalar fault a bar is five figures whose range contains the open and the close. -/
theorem priceBarReasons_eq_nil {quote : Quote} :
    priceBarReasons quote true = [] ↔
      ∃ figures : Figures, figures.Ranged ∧ figures.OpenInside ∧ quote = figures.quote := by
  constructor
  · intro sound
    obtain ⟨scalar, counted⟩ := List.append_eq_nil_iff.mp sound
    obtain ⟨priced, ranged⟩ := List.append_eq_nil_iff.mp scalar
    obtain ⟨figures, rfl, opening, high, low, close, nonneg, bounded⟩ := exists_figures priced counted
    obtain ⟨range, inside⟩ := (geometryFaults_eq_nil opening high low close).mp ranged
    exact ⟨figures, ⟨opening, low, range.1, range.2, nonneg, bounded⟩, inside, rfl⟩
  · rintro ⟨figures, ranged, inside, rfl⟩
    rw [priceBarReasons_figures ranged.opening ranged.high ranged.low ranged.close ranged.counted]
    exact (geometryFaults_eq_nil ranged.opening ranged.high ranged.low ranged.close).mpr
      ⟨⟨ranged.lowClose, ranged.closeHigh⟩, inside⟩

/-- SQL and Python admit the same bars. -/
theorem priceBarSql_iff {quote : Quote} :
    priceBarSql quote = true ↔ priceBarReasons quote true = [] := by
  rw [priceBarReasons_eq_nil]
  constructor
  · intro admitted
    unfold priceBarSql at admitted
    split at admitted
    · rename_i opening high low close volume
      obtain ⟨openingPositive, _, lowPositive, _, nonneg, whole, bounded, openHigh, closeHigh, _,
        lowOpen, lowClose⟩ := of_decide_eq_true admitted
      refine ⟨⟨opening, high, low, close, truncate volume⟩, ⟨openingPositive, lowPositive, lowClose,
        closeHigh, ?_, ?_⟩, ⟨lowOpen, openHigh⟩, ?_⟩
      · exact_mod_cast whole ▸ nonneg
      · exact_mod_cast whole ▸ bounded
      · rw [Figures.quote, ← whole]
    · cases admitted
  · rintro ⟨figures, ranged, inside, rfl⟩
    have nonneg : (0 : ℚ) ≤ figures.volume := by exact_mod_cast ranged.volume
    have bounded : (figures.volume : ℚ) ≤ bigint := by exact_mod_cast ranged.bounded
    exact decide_eq_true ⟨ranged.opening, ranged.high, ranged.low, ranged.close, nonneg,
      by rw [truncate_intCast], bounded, inside.2, ranged.closeHigh,
      ranged.lowClose.trans ranged.closeHigh, inside.1, ranged.lowClose⟩

/-- The cleanup looks at bars only that the validator refuses. -/
theorem reasons_of_hardInvalidSql {quote : Quote} (selected : hardInvalidSql quote = true) :
    priceBarReasons quote true ≠ [] := by
  intro sound
  obtain ⟨figures, ranged, inside, rfl⟩ := priceBarReasons_eq_nil.mp sound
  have geometry := (geometryFaults_eq_nil ranged.opening ranged.high ranged.low ranged.close).mpr
    ⟨⟨ranged.lowClose, ranged.closeHigh⟩, inside⟩
  have priced : ohlc.any (fun field => (figures.quote.price field).price.isNone) = false := by
    simp [ohlc, Quote.price, Figures.quote, Cell.price, ranged.opening, ranged.high, ranged.low,
      ranged.close]
  have nonneg : ¬ ((figures.volume : ℚ) < 0) := by exact_mod_cast not_lt.mpr ranged.volume
  rw [hardInvalidSql, priced, geometry] at selected
  simp only [Figures.quote, List.isEmpty_nil, Bool.not_true, Bool.or_false, Bool.false_or,
    decide_eq_true_eq] at selected
  exact nonneg selected

variable {fault : Fault}

theorem not_geometric_of_priceFaults {field : Field} {cell : Cell}
    (listed : fault ∈ priceFaults field cell) : fault.geometric = false := by
  cases cell with
  | null | nonfinite _ | text _ =>
    rw [List.mem_singleton.mp listed]
    rfl
  | number value =>
    simp only [priceFaults] at listed
    split at listed
    · rw [List.mem_singleton.mp listed]
      rfl
    · cases listed

theorem not_geometric_of_volumeFaults {cell : Cell}
    (listed : fault ∈ volumeFaults cell) : fault.geometric = false := by
  have named : fault = .volumeNegative ∨ fault = .volumeUnrepresentable := by
    cases cell with
    | null | nonfinite _ => exact .inr (List.mem_singleton.mp listed)
    | text characters =>
      simp only [volumeFaults] at listed
      split at listed
      · exact .inl (List.mem_singleton.mp listed)
      · exact .inr (List.mem_singleton.mp listed)
    | number value =>
      simp only [volumeFaults] at listed
      split at listed
      · exact .inl (List.mem_singleton.mp listed)
      · split at listed
        · exact .inr (List.mem_singleton.mp listed)
        · cases listed
  rcases named with rfl | rfl <;> rfl

variable {world : World}

theorem not_geometric_of_tickerFaults {ticker : Label}
    (listed : fault ∈ tickerFaults world ticker) : fault.geometric = false := by
  have named : fault = .invalidTicker := by
    cases ticker with
    | name characters =>
      simp only [tickerFaults] at listed
      split at listed
      · exact List.mem_singleton.mp listed
      · cases listed
    | other text => exact List.mem_singleton.mp listed
  rw [named]
  rfl

theorem not_geometric_of_dateFaults {date : Stamp}
    (listed : fault ∈ dateFaults world date) : fault.geometric = false := by
  have named : fault = .offCalendar ∨ fault = .invalidDate := by
    rcases date with text | ⟨day, _ | _⟩
    · exact .inr (List.mem_singleton.mp listed)
    · exact .inr (List.mem_singleton.mp listed)
    · simp only [dateFaults] at listed
      split at listed
      · cases listed
      · exact .inl (List.mem_singleton.mp listed)
  rcases named with rfl | rfl <;> rfl

/-- The row stands under a canonical ticker and at a session. -/
def Placed (world : World) (row : Observation) : Prop :=
  tickerFaults world row.ticker = [] ∧ dateFaults world row.date = []

theorem observationReasons_eq_nil {row : Observation} :
    observationReasons world row = [] ↔ Placed world row ∧
      ∃ figures : Figures, figures.Ranged ∧ figures.OpenInside ∧ row.quote = figures.quote := by
  simp only [observationReasons, List.append_eq_nil_iff, priceBarReasons_eq_nil, Placed]
  tauto

theorem eq_nil_of_geometric {faults : List Fault} (every : ∀ fault ∈ faults, fault.geometric = true)
    (none : ∀ fault ∈ faults, fault.geometric = false) : faults = [] := by
  apply List.eq_nil_iff_forall_not_mem.mpr
  intro fault listed
  have same := (none fault listed).symm.trans (every fault listed)
  cases same

/-- The open is the only fault of a row exactly when the row is well placed and its figures
are usable with any open inside the range. -/
theorem openFaultOnly_iff {row : Observation} :
    openFaultOnly row.quote (observationReasons world row) = true ↔ Placed world row ∧
      ∃ figures : Figures, figures.Ranged ∧ ¬ figures.OpenInside ∧ row.quote = figures.quote := by
  constructor
  · intro excused
    simp only [openFaultOnly, Bool.and_eq_true, Bool.not_eq_true', List.isEmpty_eq_false_iff,
      List.isEmpty_iff, List.all_eq_true] at excused
    obtain ⟨⟨faulty, every⟩, closed⟩ := excused
    have listed (faults : List Fault) (inside : faults ⊆ observationReasons world row) :
        ∀ fault ∈ faults, fault.geometric = true := fun fault member => every fault (inside member)
    have placed : Placed world row := by
      constructor
      · exact eq_nil_of_geometric (listed _ fun _ member => by simp [observationReasons, member])
          fun _ => not_geometric_of_tickerFaults
      · exact eq_nil_of_geometric (listed _ fun _ member => by simp [observationReasons, member])
          fun _ => not_geometric_of_dateFaults
    have counted : volumeFaults row.quote.volume = [] :=
      eq_nil_of_geometric
        (listed _ fun _ member => by simp [observationReasons, priceBarReasons, member])
        fun _ => not_geometric_of_volumeFaults
    have priced : ohlc.flatMap (fun field => priceFaults field (row.quote.price field)) = [] := by
      refine eq_nil_of_geometric (listed _ fun _ member => ?_) ?_
      · simp only [observationReasons, priceBarReasons, List.mem_append]
        exact .inl (.inl (.inl (.inl member)))
      · intro fault member
        obtain ⟨field, _, found⟩ := List.mem_flatMap.mp member
        exact not_geometric_of_priceFaults found
    obtain ⟨figures, same, opening, high, low, close, nonneg, bounded⟩ :=
      exists_figures priced counted
    -- The quote with its open replaced by its close tells that the close is inside.
    rw [same] at closed counted
    have judged : priceBarReasons figures.closed.quote false = geometryFaults figures.closed.quote :=
      @priceBarReasons_figures figures.closed close high low close counted false
    have replaced : geometryFaults figures.closed.quote = [] := judged.symm.trans closed
    have range := ((@geometryFaults_eq_nil figures.closed close high low close).mp replaced).1
    have ranged : figures.Ranged := ⟨opening, low, range.1, range.2, nonneg, bounded⟩
    refine ⟨placed, figures, ranged, ?_, same⟩
    intro inside
    exact faulty (observationReasons_eq_nil.mpr ⟨placed, figures, ranged, inside, same⟩)
  · rintro ⟨placed, figures, ranged, outside, same⟩
    have reasons : observationReasons world row = geometryFaults figures.quote := by
      rw [observationReasons, placed.1, placed.2, same, priceBarReasons_figures ranged.opening
        ranged.high ranged.low ranged.close ranged.counted]
      simp
    have faulty : geometryFaults figures.quote ≠ [] := fun sound =>
      outside ((geometryFaults_eq_nil ranged.opening ranged.high ranged.low ranged.close).mp sound).2
    have geometric : (geometryFaults figures.quote).all Fault.geometric = true := by
      simp only [geometryFaults]
      split
      · split <;> split <;> rfl
      · rfl
    have judged : priceBarReasons figures.closed.quote false = geometryFaults figures.closed.quote :=
      @priceBarReasons_figures figures.closed ranged.close ranged.high ranged.low ranged.close
        ranged.counted false
    have range : geometryFaults figures.closed.quote = [] :=
      (@geometryFaults_eq_nil figures.closed ranged.close ranged.high ranged.low ranged.close).mpr
        ⟨⟨ranged.lowClose, ranged.closeHigh⟩, ranged.lowClose, ranged.closeHigh⟩
    rw [openFaultOnly, reasons, geometric, same]
    change (!(geometryFaults figures.quote).isEmpty && true &&
      (priceBarReasons figures.closed.quote false).isEmpty) = true
    rw [judged, range]
    simpa using faulty

end Figures

end TradingEngine.PriceStore
