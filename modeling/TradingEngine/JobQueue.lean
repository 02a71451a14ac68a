import TradingEngine.KeyedTables
import TradingEngine.Runs

/-!
# The job queue

Heavy work is a row of `jobs`. The type of a job says how it is run: in the process of
the drain, as a supervised child that borrows the writer, or as one of several parallel
children that only read.
-/

namespace TradingEngine.Queue

/-- An entry of the dispatch table. -/
structure JobType where
  memMb : Int
  archive : Bool := false
  timeoutS : Int := 4 * 3600
  supersedes : Bool := false
  releasesWriter : Bool := false
  parallelSafe : Bool := false

/-- `JOB_TYPES`. -/
def jobTypes : List (String × JobType) :=
  [("intraday", { memMb := 4000, archive := true, supersedes := true, releasesWriter := true }),
    ("fundamentals", { memMb := 2000, archive := true, releasesWriter := true }),
    ("earnings", { memMb := 1000, archive := true, releasesWriter := true }),
    ("actions", { memMb := 1000, archive := true, timeoutS := 6 * 3600, releasesWriter := true }),
    ("signals", { memMb := 500, releasesWriter := true }),
    ("tradingview_history", { memMb := 500, archive := true, releasesWriter := true }),
    ("experiment", { memMb := 2000 }),
    ("experiment_forward", { memMb := 500 }),
    ("backtest", { memMb := 4500, parallelSafe := true }),
    ("walkforward", { memMb := 4500, timeoutS := 7 * 3600, parallelSafe := true }),
    ("capital_sensitivity", { memMb := 4500, timeoutS := 24 * 3600, parallelSafe := true }),
    ("sweep", { memMb := 4500, timeoutS := 14 * 3600, parallelSafe := true })]

def jobType (kind : String) : Option JobType := jobTypes.lookup kind

def isParallelSafe (kind : String) : Bool := (jobType kind).any JobType.parallelSafe

/-- The declared ceiling of a type, else that of any job. -/
def defaultTimeoutS (kind : String) : Int :=
  match jobType kind with
  | some type => type.timeoutS
  | none => 4 * 3600

inductive JobState where
  | queued | pending | running | done | failed | superseded
  deriving DecidableEq

/-- A row as a drain selects it. -/
structure QueueRow where
  id : Nat
  kind : String
  params : String
  memMb : Option Int
  timeoutS : Option Int
  priority : Int
  deriving DecidableEq

/-- The declared memory of a row. -/
def QueueRow.declared (row : QueueRow) : Int := row.memMb.getD 0

/-- The ceiling of a row. None and zero stand for that of its type. -/
def QueueRow.limit (row : QueueRow) : Int :=
  match row.timeoutS with
  | none | some 0 => defaultTimeoutS row.kind
  | some seconds => seconds

def engineRamBudgetMb : Int := 48000

def load5Max : ℚ := 28

def freeRamMinGb : ℚ := 8

/-- The load or the free memory forbids to start anything. -/
def guardTripped (load5 freeGb : ℚ) : Prop := load5Max < load5 ∨ freeGb < freeRamMinGb

instance (load5 freeGb : ℚ) : Decidable (guardTripped load5 freeGb) :=
  inferInstanceAs (Decidable (_ ∨ _))

end TradingEngine.Queue
