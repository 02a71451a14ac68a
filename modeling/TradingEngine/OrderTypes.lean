import Mathlib

/-!
# Order vocabulary and lifecycle

The states an account order passes through, the transitions between them and
the projection of a fine state onto the status of the older order table.
-/

namespace TradingEngine.OrderTypes

/-- Order types of the account engine. -/
inductive OrderType where
  | nextOpen | moo | moc | market | limit | limitOnOpen
  deriving DecidableEq

theorem OrderType.moc_unlimited : OrderType.moc ≠ .limit := by decide
theorem OrderType.nextOpen_unlimited : OrderType.nextOpen ≠ .limit := by decide

/-- Explicit sides: a short is never opened by selling. -/
inductive Side where
  | buy | sell | short | cover
  deriving DecidableEq

namespace Side

/-- Sides that reduce a position. -/
def closing : Side → Bool
  | sell | cover => true
  | buy | short => false

/-- Direction in which a side moves the signed quantity. -/
def sign : Side → ℚ
  | buy | cover => 1
  | sell | short => -1

end Side

/-- Reasons that accompany a state. The source joins several with a bar; here
they are a list. -/
inductive Reason where
  | buyIn | marginCall | retirement | barMissing
  | cancelledByClient | retired | halted | retiring
  | haltManual | haltDrawdown | haltDailyLoss | haltReconciliation
  | settlement (effective : Int) | bookedSettlement (effective : Int)
  | invalidQuantity | invalidLimitPrice | invalidReferencePrice | fillArithmetic
  | instrumentNotExecutable | unsupportedOrderType
  | contingentNotFilled | contingentParentLater | noPosition
  | shortNotAllowed | locateUnavailable | noLocate
  | noBar | cutoff | marketClosed | dayLimitNotTouched | illiquid | illiquidAggregate
  | pdtRestricted | pdtLimit | regTInitial | grossCap | ledgerRefused
  deriving DecidableEq

/-- Orders that the engine itself queues to reduce a position. -/
def Reason.forces : Reason → Bool
  | .buyIn | .marginCall | .retirement => true
  | _ => false

/-- Fine states stored with the order details. -/
inductive OrderState where
  | received | queued | filled | cancelled | expired | rejected | refused
  deriving DecidableEq

/-- Statuses of the order table. -/
inductive CoarseStatus where
  | pending | filled | cancelled | expired | rejected
  deriving DecidableEq

/-- Targets of each fine state. -/
def stateTransitions : OrderState → List OrderState
  | .received => [.queued, .refused]
  | .queued => [.filled, .cancelled, .expired, .rejected]
  | .filled | .cancelled | .expired | .rejected | .refused => []

/-- Whether the lifecycle has a transition. -/
def canTransition (current target : OrderState) : Bool :=
  target ∈ stateTransitions current

/-- A state without a transition out of it. -/
def terminal (state : OrderState) : Bool := (stateTransitions state).isEmpty

/-- Project a fine state onto the order table. A refused order has no row there,
and the source raises. -/
def coarseStatus : OrderState → Option CoarseStatus
  | .received | .queued => some .pending
  | .filled => some .filled
  | .cancelled => some .cancelled
  | .expired => some .expired
  | .rejected => some .rejected
  | .refused => none

end TradingEngine.OrderTypes
