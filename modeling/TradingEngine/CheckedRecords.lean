import TradingEngine.BinaryFloats
import TradingEngine.Runs

/-!
# Records that check their fields

A record is built from arguments by name. Each field has a check, which reads an argument
and may replace an integer by a double; a record may then compare its fields. What a check
keeps passes it again unchanged, so a record that is built can be built again from what it
holds. A payload gives values to names, and a record is called with one.
-/

namespace TradingEngine.CheckedRecords

open BinaryFloats Runs

theorem forM_ok {ε α : Type} {check : α → Except ε Unit} {elements : List α} :
    elements.forM check = .ok () ↔ ∀ element ∈ elements, check element = .ok () := by
  induction elements with
  | nil => exact iff_of_true rfl (by simp)
  | cons element rest ih =>
    rw [List.forall_mem_cons, ← ih]
    refine bind_ok.trans ⟨?_, fun ⟨first, others⟩ => ⟨(), first, others⟩⟩
    rintro ⟨done, first, others⟩
    exact ⟨first, others⟩

/-- What building a record raises: an error of the contract, another error of a value or
of a type, or an integer that is too large for a double. -/
inductive Raised where
  | contract (text : String)
  | value (text : String)
  | overflow
  | missingKey (name : String)
  deriving DecidableEq

/-- The number of days from the first year to the last. -/
def dayCount : ℕ := 3652059

/-- A day in microseconds. -/
def dayLength : ℕ := 86400000000

/-- A date, counted from the first day of the first year. -/
abbrev Day := Fin dayCount

/-- The microseconds that a clock shows, counted from the first midnight. -/
abbrev Wall := Fin (dayCount * dayLength)

theorem Wall.date_bound (wall : Wall) : (wall : ℕ) / dayLength < dayCount :=
  Nat.div_lt_of_lt_mul (by simpa only [mul_comm] using wall.isLt)

def Wall.date (wall : Wall) : Day := ⟨wall / dayLength, wall.date_bound⟩

theorem dayCount_pos : 0 < dayCount := by decide

theorem wallCount_pos : 0 < dayCount * dayLength := by decide

def firstDay : Day := ⟨0, dayCount_pos⟩

def midnight : Wall := ⟨0, wallCount_pos⟩

/-- A date and time. The offset of its zone in microseconds depends on what the clock
shows, and on whether it shows it for the second time; a naive time has none. -/
structure Datetime where
  wall : Wall
  fold : Bool
  offset : Wall → Bool → Option ℤ

namespace Datetime

def utcoffset (time : Datetime) : Option ℤ := time.offset time.wall time.fold

def utc (wall : Wall) : Datetime := ⟨wall, false, fun _ _ => some 0⟩

/-- A time that is some seconds later on the same clock. -/
def plus (time : Datetime) (seconds : ℤ) : Except Raised Datetime :=
  if later : (time.wall + seconds * 1000000).toNat < dayCount * dayLength then
    .ok { time with wall := ⟨_, later⟩, fold := false }
  else .error .overflow

/-- Two times are equal at one instant. -/
def same (first second : Datetime) : Bool :=
  match first.utcoffset, second.utcoffset with
  | some left, some right => decide ((first.wall : ℤ) - left = second.wall - right)
  | none, none => decide (first.wall = second.wall)
  | _, _ => false

end Datetime

/-- A value that is no record. A list or tuple of texts is told from one with other
items, which comes with what the check of its items raises. -/
inductive Atom where
  | none
  | bool (value : Bool)
  | int (value : ℤ)
  | float (value : Double)
  | text (value : String)
  | texts (tuple : Bool) (items : List String)
  | items (raised : Raised)
  | date (value : Day)
  | time (value : Datetime)
  | other

namespace Atom

/-- The number that a value equals. -/
def number : Atom → Option (WithBot (WithTop ℚ))
  | bool value => some (if value then 1 else 0)
  | int value => some ((value : ℚ) :)
  | float value => value.extended
  | _ => Option.none

/-- Equality of values: numbers of every type are compared, and no number equals nan. -/
def same : Atom → Atom → Bool
  | none, none => true
  | text first, text second => first == second
  | texts left first, texts right second => left == right && first == second
  | date first, date second => first == second
  | time first, time second => first.same second
  | first, second =>
    match first.number, second.number with
    | some left, some right => decide (left = right)
    | _, _ => false

/-- A value is one of some texts. A list among them, which cannot be hashed, is refused
with another error. -/
def among (texts : List String) : Atom → Bool
  | text value => texts.contains value
  | _ => false

instance : BEq Atom := ⟨same⟩

theorem eq_text_of_same {value : String} {atom : Atom} (equal : (text value).same atom = true) :
    atom = text value := by
  cases atom with
  | text other => rw [eq_of_beq (show (value == other) = true from equal)]
  | _ => cases equal

theorem eq_texts_of_same {tuple : Bool} {items : List String} {atom : Atom}
    (equal : (texts tuple items).same atom = true) : atom = texts tuple items := by
  cases atom with
  | texts kind other =>
    have both : (tuple == kind && items == other) = true := equal
    rw [Bool.and_eq_true] at both
    rw [eq_of_beq both.1, eq_of_beq both.2]
  | _ => cases equal

@[simp] theorem same_text (value : String) : (text value).same (text value) = true :=
  beq_self_eq_true value

@[simp] theorem same_texts (tuple : Bool) (items : List String) :
    (texts tuple items).same (texts tuple items) = true :=
  Bool.and_eq_true_iff.mpr ⟨beq_self_eq_true tuple, beq_self_eq_true items⟩

@[simp] theorem same_int (value : ℤ) : (int value).same (int value) = true :=
  decide_eq_true (Eq.refl ((value : ℚ) : WithBot (WithTop ℚ)))

@[simp] theorem same_bool (value : Bool) : (bool value).same (bool value) = true :=
  decide_eq_true (Eq.refl (if value then 1 else 0 : WithBot (WithTop ℚ)))

@[simp] theorem same_date (value : Day) : (date value).same (date value) = true :=
  beq_self_eq_true value

@[simp] theorem same_time (value : Datetime) : (time value).same (time value) = true := by
  show value.same value = true
  cases zone : value.utcoffset <;> simp [Datetime.same, zone]

theorem same_float {value : Double} (within : value.isFinite = true) :
    (float value).same (float value) = true := by
  obtain ⟨number, read⟩ := Double.extended_of_isFinite within
  unfold same
  simp [Atom.number, read]

end Atom

/-- The check of a field. What it keeps is written as a value that the check keeps, and
that equals itself. -/
structure Check (α : Type) where
  read : Atom → Except Raised α
  write : α → Atom
  initial : α
  again : ∀ {given kept}, read given = .ok kept →
    read (write kept) = .ok kept ∧ (write kept).same (write kept) = true

namespace Check

variable (error : Raised)

/-- A check that keeps a value of one type as it is, when it has a property. -/
def plain {α : Type} (view : Atom → Option α) (write : α → Atom) (initial : α)
    (viewed : ∀ value, view (write value) = some value)
    (equal : ∀ value, (write value).same (write value) = true) (holds : α → Bool) : Check α where
  read given := match view given with
    | some value => if holds value then .ok value else .error error
    | none => .error error
  write := write
  initial := initial
  again {given kept} read := by
    refine ⟨?_, equal kept⟩
    rw [viewed]
    split at read
    · split at read
      · cases read
        rename_i valid
        exact if_pos valid
      · cases read
    · cases read

def text : (String → Bool) → Check String :=
  plain error (fun | .text value => some value | _ => none) .text ""
    (fun _ => rfl) Atom.same_text

/-- An integer; a truth value is none. -/
def integer : (ℤ → Bool) → Check ℤ :=
  plain error (fun | .int value => some value | _ => none) .int 0 (fun _ => rfl) Atom.same_int

def bool : (Bool → Bool) → Check Bool :=
  plain error (fun | .bool value => some value | _ => none) .bool false
    (fun _ => rfl) Atom.same_bool

def date : Check Day :=
  plain error (fun | .date value => some value | _ => none) .date firstDay
    (fun _ => rfl) Atom.same_date fun _ => true

/-- A time whose offset is zero. -/
def utc : Check Datetime :=
  plain error (fun | .time value => some value | _ => none) .time (.utc midnight)
    (fun _ => rfl) Atom.same_time fun value => value.utcoffset == some 0

/-- A nonempty tuple of distinct texts in order, each with a property. -/
def texts (holds : String → Bool) (itemError : Raised) : Check (List String) where
  read
    | .texts true items =>
      if items = [] ∨ ¬items.Pairwise (· < ·) then .error error
      else if items.all holds then .ok items else .error itemError
    | .items raised => .error raised
    | _ => .error error
  write := .texts true
  initial := []
  again {given kept} read := by
    refine ⟨?_, Atom.same_texts _ _⟩
    cases given with
    | texts tuple items =>
      cases tuple with
      | false => cases read
      | true =>
        simp only at read
        split at read
        · cases read
        · split at read
          · cases read
            simp_all
          · cases read
    | _ => cases read

/-- The double that a number is converted to. -/
def double : Atom → Except Raised Double
  | .int value => match Double.ofInt value with
    | some converted => .ok converted
    | none => .error .overflow
  | .float value => .ok value
  | _ => .error error

/-- A finite number that nothing refuses, kept as a double. -/
def number (refuse : Double → Option Raised) : Check Double where
  read given := do
    let value ← double error given
    match if value.isFinite then refuse value else some error with
    | some raised => .error raised
    | none => .ok value
  write := .float
  initial := Double.zero
  again {given kept} read := by
    obtain ⟨value, -, checked⟩ := bind_ok.mp read
    split at checked
    · cases checked
    · rename_i accepted
      cases checked
      refine ⟨?_, Atom.same_float ?_⟩
      · refine bind_ok.mpr ⟨kept, rfl, ?_⟩
        rw [accepted]
      · by_contra infinite
        rw [if_neg infinite] at accepted
        cases accepted

/-- A number or nothing. -/
def optionalNumber (refuse : Double → Option Raised) : Check (Option Double) where
  read
    | .none => .ok none
    | given => (number error refuse).read given |>.map some
  write
    | none => .none
    | some value => .float value
  initial := none
  again {given kept} read := by
    cases kept with
    | none => exact ⟨rfl, rfl⟩
    | some value =>
      have kept : (number error refuse).read given = .ok value := by
        cases given with
        | none => cases read
        | _ =>
          obtain ⟨value, first, same⟩ := map_ok.mp read
          cases same
          exact first
      obtain ⟨again, equal⟩ := (number error refuse).again kept
      exact ⟨map_ok.mpr ⟨value, again, rfl⟩, equal⟩

end Check
/-- A class of records: which fields are checked before the record compares them, and
which after. -/
structure Schema {Field : Type} (Value : Field → Type) where
  check : ∀ field, Check (Value field)
  first : List Field
  agree : (∀ field, Value field) → Except Raised Unit
  later : List Field
  complete : ∀ field, field ∈ first ++ later

namespace Schema

variable {Field : Type} {Value : Field → Type} (schema : Schema Value)

/-- The fields of a class. -/
@[reducible] def fintype [DecidableEq Field] : Fintype Field :=
  .ofList (schema.first ++ schema.later) schema.complete

def readAll (given : Field → Atom) (fields : List Field) : Except Raised Unit :=
  fields.forM fun field => discard ((schema.check field).read (given field))

def kept (given : Field → Atom) (field : Field) : Value field :=
  match (schema.check field).read (given field) with
  | .ok value => value
  | .error _ => (schema.check field).initial

/-- Build a record from its arguments. -/
def construct (given : Field → Atom) : Except Raised (∀ field, Value field) := do
  schema.readAll given schema.first
  schema.agree (schema.kept given)
  schema.readAll given schema.later
  return schema.kept given

/-- What a record holds, as values. -/
def write (record : ∀ field, Value field) (field : Field) : Atom :=
  (schema.check field).write (record field)

variable {schema}

variable {given : Field → Atom}

theorem readAll_ok {fields : List Field} :
    schema.readAll given fields = .ok () ↔
      ∀ field ∈ fields, ∃ value, (schema.check field).read (given field) = .ok value := by
  refine forM_ok.trans (forall₂_congr fun field _ => map_ok.trans ?_)
  simp

/-- A record is built when every field keeps its argument and the fields agree. -/
theorem construct_ok {record : ∀ field, Value field} :
    schema.construct given = .ok record ↔
      (∀ field, (schema.check field).read (given field) = .ok (record field)) ∧
        schema.agree record = .ok () := by
  constructor
  · intro built
    obtain ⟨checked, first, built⟩ := bind_ok.mp built
    obtain ⟨compared, agreed, built⟩ := bind_ok.mp built
    obtain ⟨rechecked, later, built⟩ := bind_ok.mp built
    cases built
    refine ⟨fun field => ?_, agreed⟩
    obtain ⟨value, read⟩ : ∃ value, (schema.check field).read (given field) = .ok value := by
      rcases List.mem_append.mp (schema.complete field) with early | late
      · exact readAll_ok.mp first field early
      · exact readAll_ok.mp later field late
    simp [kept, read]
  · rintro ⟨read, agreed⟩
    have same : schema.kept given = record := by
      funext field
      simp [kept, read]
    have all (fields : List Field) : schema.readAll given fields = .ok () :=
      readAll_ok.mpr fun field _ => ⟨_, read field⟩
    unfold construct
    rw [all, same, agreed, all]
    rfl

/-- What a record holds builds the record again. -/
theorem construct_write {record : ∀ field, Value field}
    (built : schema.construct given = .ok record) :
    schema.construct (schema.write record) = .ok record := by
  obtain ⟨read, agreed⟩ := construct_ok.mp built
  exact construct_ok.mpr ⟨fun field => ((schema.check field).again (read field)).1, agreed⟩

theorem write_same {record : ∀ field, Value field}
    (built : schema.construct given = .ok record) (field : Field) :
    (schema.write record field).same (schema.write record field) = true :=
  ((schema.check field).again ((construct_ok.mp built).1 field)).2

end Schema

/-- A record that was built. -/
structure Schema.Built {Field : Type} {Value : Field → Type} (schema : Schema Value) where
  record : ∀ field, Value field
  built : schema.construct (schema.write record) = .ok record

/-- The record that arguments build. -/
def Schema.build {Field : Type} {Value : Field → Type} (schema : Schema Value)
    (given : Field → Atom) (succeeds : (schema.construct given).isOk = true) : schema.Built :=
  match made : schema.construct given with
  | .ok record => ⟨record, construct_write made⟩
  | .error _ => absurd succeeds (by rw [made]; exact Bool.false_ne_true)

theorem Schema.build_read {Field : Type} {Value : Field → Type} {schema : Schema Value}
    {given : Field → Atom} (succeeds : (schema.construct given).isOk = true) (field : Field) :
    (schema.check field).read (given field) = .ok ((schema.build given succeeds).record field) := by
  unfold Schema.build
  split
  · rename_i made
    exact (construct_ok.mp made).1 field
  · rename_i raised
    rw [raised] at succeeds
    cases succeeds

theorem Schema.build_record {Field : Type} {Value : Field → Type} {schema : Schema Value}
    {given : Field → Atom} (succeeds : (schema.construct given).isOk = true) :
    (schema.build given succeeds).record = schema.kept given := by
  funext field
  unfold Schema.kept
  rw [Schema.build_read succeeds field]

/-- A dictionary: what it gives the names of some fields, and its other entries. -/
@[ext] structure Payload (Field : Type) where
  value : Field → Option Atom
  others : List (String × Atom)

namespace Payload

variable {Field : Type}

/-- A dictionary with exactly the names of the fields. -/
def exact (value : Field → Atom) : Payload Field := ⟨fun field => some (value field), []⟩

section

variable [Fintype Field]

def isExact (payload : Payload Field) : Bool :=
  payload.others.isEmpty && decide (∀ field, (payload.value field).isSome = true)

/-- Equality of dictionaries that have no other entries. -/
instance : BEq (Payload Field) where
  beq first second := first.others.isEmpty && second.others.isEmpty &&
    decide (∀ field, (first.value field == second.value field) = true)

@[simp] theorem isExact_exact (value : Field → Atom) : (exact value).isExact = true := by
  simp [isExact, exact]

theorem exact_beq_self {value : Field → Atom}
    (equal : ∀ field, (value field).same (value field) = true) :
    (exact value == exact value) = true := by
  have pointwise : ∀ field, (some (value field) == some (value field)) = true := by
    intro field
    rw [Option.some_beq_some]
    exact equal field
  exact decide_eq_true pointwise

theorem eq_of_texts_beq {value : Field → String} {payload : Payload Field}
    (equal : (exact (fun field => .text (value field)) == payload) = true) :
    payload = exact fun field => .text (value field) := by
  obtain ⟨alone, pointwise⟩ := Bool.and_eq_true_iff.mp equal
  apply Payload.ext
  · funext field
    have entry := of_decide_eq_true pointwise field
    cases given : payload.value field with
    | none =>
      rw [given] at entry
      cases entry
    | some atom =>
      rw [given, exact, Option.some_beq_some] at entry
      rw [Atom.eq_text_of_same entry]
      rfl
  · exact List.isEmpty_iff.mp alone

end

def entry (payload : Payload Field) (field : Field) : Atom := (payload.value field).getD .none

end Payload

/-- Call a class with the entries of a dictionary by name, and with defaults for some of
the fields. -/
def Schema.call {Field : Type} {Value : Field → Type} (schema : Schema Value)
    (default : Field → Option Atom) (payload : Payload Field) :
    Except Raised (∀ field, Value field) :=
  if !payload.others.isEmpty then .error (.value "unexpected keyword argument")
  else if (schema.first ++ schema.later).all fun field =>
      ((payload.value field).or (default field)).isSome then
    schema.construct fun field => ((payload.value field).or (default field)).getD .none
  else .error (.value "missing argument")

@[simp] theorem Schema.call_exact {Field : Type} {Value : Field → Type} (schema : Schema Value)
    (default : Field → Option Atom) (value : Field → Atom) :
    schema.call default (.exact value) = schema.construct value := by
  simp [Schema.call, Payload.exact]

end TradingEngine.CheckedRecords
