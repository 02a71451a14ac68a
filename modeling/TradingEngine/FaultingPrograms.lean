import Mathlib

/-!
# Programs whose steps may raise or be killed

A program performs labelled steps on a state. A plan of faults says of every label
whether its step is done, raises or is killed, and in the last two cases whether it had
its effect before. A program that raises goes through its handlers; one that is killed
leaves the state as it is.

An assertion about a program says what holds when it returns, when it has raised and
when it was killed. There is one rule for each way to build a program.
-/

namespace TradingEngine.FaultingPrograms

universe u v w z

inductive Fault where
  | none_
  | raises (done : Bool)
  | kills (done : Bool)
  deriving DecidableEq

inductive Outcome (α : Type u) where
  | returned (value : α)
  | raised
  | killed
  deriving DecidableEq

/-- How a program ends, and the state that it leaves. -/
abbrev Program (ι : Type u) (σ : Type v) (α : Type w) := (ι → Fault) → σ → Outcome α × σ

namespace Program

variable {ι : Type u} {σ : Type v} {α : Type w} {β : Type z}

def return_ (value : α) : Program ι σ α := fun _ state => (.returned value, state)

/-- Read the state, which changes nothing. -/
def read (look : σ → α) : Program ι σ α := fun _ state => (.returned (look state), state)

/-- Change what belongs to the program itself, which cannot fail. -/
def assign (change : σ → σ) : Program ι σ Unit := fun _ state => (.returned (), change state)

def raise : Program ι σ α := fun _ state => (.raised, state)

/-- One step. It raises by itself in the states in which it cannot be done. -/
def perform (label : ι) (fails : σ → Bool) (effect : σ → σ) : Program ι σ Unit :=
  fun faults state =>
    let after := if fails state then state else effect state
    match faults label with
    | .none_ => if fails state then (.raised, state) else (.returned (), after)
    | .raises done => (.raised, if done then after else state)
    | .kills done => (.killed, if done then after else state)

def bind (first : Program ι σ α) (second : α → Program ι σ β) : Program ι σ β :=
  fun faults state =>
    match first faults state with
    | (.returned value, after) => second value faults after
    | (.raised, after) => (.raised, after)
    | (.killed, after) => (.killed, after)

/-- One program after another. -/
def andThen (first : Program ι σ Unit) (second : Program ι σ β) : Program ι σ β :=
  first.bind fun _ => second

/-- A body with a cleanup that runs however it ends, unless it is killed. -/
def ensure (body : Program ι σ α) (cleanup : Program ι σ Unit) : Program ι σ α :=
  fun faults state =>
    match body faults state with
    | (.killed, after) => (.killed, after)
    | (.raised, after) => (cleanup.andThen raise) faults after
    | (.returned value, after) => (cleanup.andThen (return_ value)) faults after

/-- A body with a handler for what it raises, which is raised again however that ends. -/
def onRaise (body : Program ι σ α) (handler : Program ι σ Unit) : Program ι σ α :=
  fun faults state =>
    match body faults state with
    | (.raised, after) =>
      match handler faults after with
      | (.killed, last) => (.killed, last)
      | (_, last) => (.raised, last)
    | ended => ended

/-- One program for every element of a list. -/
def forEach (body : α → Program ι σ Unit) : List α → Program ι σ Unit
  | [] => return_ ()
  | element :: rest => (body element).andThen (forEach body rest)

/-- What holds of the ends of a program from the states of a precondition. -/
def Satisfies (faults : ι → Fault) (pre : σ → Prop) (program : Program ι σ α)
    (returned : α → σ → Prop) (raised killed : σ → Prop) : Prop :=
  ∀ state, pre state →
    match program faults state with
    | (.returned value, after) => returned value after
    | (.raised, after) => raised after
    | (.killed, after) => killed after

variable {faults : ι → Fault} {pre raised killed : σ → Prop}

theorem satisfies_return {value : α} {returned : α → σ → Prop}
    (holds : ∀ state, pre state → returned value state) :
    Satisfies faults pre (return_ value) returned raised killed := holds

theorem satisfies_read {look : σ → α} {returned : α → σ → Prop}
    (holds : ∀ state, pre state → returned (look state) state) :
    Satisfies faults pre (read look) returned raised killed := holds

theorem satisfies_assign {change : σ → σ} {returned : Unit → σ → Prop}
    (holds : ∀ state, pre state → returned () (change state)) :
    Satisfies faults pre (assign change) returned raised killed := holds

theorem satisfies_raise {returned : α → σ → Prop} (holds : ∀ state, pre state → raised state) :
    Satisfies faults pre raise returned raised killed := holds

/-- Whether a step raises in a state, by itself or by a fault. -/
def Raises (faults : ι → Fault) (label : ι) (fails : Bool) : Prop :=
  fails = true ∨ ∃ done, faults label = .raises done

/-- A step leaves the state as it was or has had its effect, however it ends. -/
theorem satisfies_perform {label : ι} {fails : σ → Bool} {effect : σ → σ}
    {returned : Unit → σ → Prop}
    (done : ∀ state, pre state → fails state = false → faults label = .none_ →
      returned () (effect state))
    (raises : ∀ state, pre state → Raises faults label (fails state) → raised state)
    (raisesDone : ∀ state, pre state → fails state = false → faults label = .raises true →
      raised (effect state))
    (kills : ∀ state, pre state → killed state)
    (killsDone : ∀ state, pre state → fails state = false → killed (effect state)) :
    Satisfies faults pre (perform label fails effect) returned raised killed := by
  intro state before
  unfold perform
  cases fault : faults label with
  | none_ =>
    cases failed : fails state with
    | true => exact raises state before (.inl failed)
    | false => exact done state before failed fault
  | raises happened =>
    have raise : raised state := raises state before (.inr ⟨happened, fault⟩)
    cases happened with
    | false => exact raise
    | true =>
      cases failed : fails state with
      | true => exact raise
      | false => exact raisesDone state before failed fault
  | kills happened =>
    cases happened with
    | false => exact kills state before
    | true =>
      cases failed : fails state with
      | true => exact kills state before
      | false => exact killsDone state before failed

/-- A step whose effect keeps an assertion keeps it however it ends. -/
theorem satisfies_perform_of_kept {label : ι} {fails : σ → Bool} {effect : σ → σ}
    (kept : ∀ state, pre state → pre (effect state)) :
    Satisfies faults pre (perform label fails effect) (fun _ => pre) pre pre :=
  satisfies_perform (fun state before _ _ => kept state before) (fun _ before _ => before)
    (fun state before _ _ => kept state before) (fun _ before => before)
    fun state before _ => kept state before

variable {program : Program ι σ α} {returned : α → σ → Prop}

theorem Satisfies.consequence {pre' raised' killed' : σ → Prop} {returned' : α → σ → Prop}
    (holds : Satisfies faults pre program returned raised killed)
    (stronger : ∀ state, pre' state → pre state)
    (returns : ∀ value state, returned value state → returned' value state)
    (raises : ∀ state, raised state → raised' state)
    (kills : ∀ state, killed state → killed' state) :
    Satisfies faults pre' program returned' raised' killed' := by
  intro state before
  have ended := holds state (stronger state before)
  match result : program faults state with
  | (.returned value, after) =>
    rw [result] at ended
    exact returns value after ended
  | (.raised, after) =>
    rw [result] at ended
    exact raises after ended
  | (.killed, after) =>
    rw [result] at ended
    exact kills after ended

/-- A program satisfies what its assertion says from fewer states. -/
theorem Satisfies.strengthen {pre' : σ → Prop}
    (holds : Satisfies faults pre program returned raised killed)
    (stronger : ∀ state, pre' state → pre state) :
    Satisfies faults pre' program returned raised killed :=
  holds.consequence stronger (fun _ _ ends => ends) (fun _ ends => ends) fun _ ends => ends

theorem Satisfies.weaken {returned' : α → σ → Prop}
    (holds : Satisfies faults pre program returned raised killed)
    (returns : ∀ value state, returned value state → returned' value state) :
    Satisfies faults pre program returned' raised killed :=
  holds.consequence (fun _ before => before) returns (fun _ ends => ends) fun _ ends => ends

theorem Satisfies.bind {second : α → Program ι σ β} {last : β → σ → Prop}
    (holds : Satisfies faults pre program returned raised killed)
    (after : ∀ value, Satisfies faults (returned value) (second value) last raised killed) :
    Satisfies faults pre (program.bind second) last raised killed := by
  intro state before
  have ended := holds state before
  unfold Program.bind
  match result : program faults state with
  | (.returned value, next) =>
    rw [result] at ended
    exact after value next ended
  | (.raised, next) =>
    rw [result] at ended
    exact ended
  | (.killed, next) =>
    rw [result] at ended
    exact ended

theorem Satisfies.andThen {first : Program ι σ Unit} {second : Program ι σ β}
    {middle : σ → Prop} {last : β → σ → Prop}
    (holds : Satisfies faults pre first (fun _ => middle) raised killed)
    (after : Satisfies faults middle second last raised killed) :
    Satisfies faults pre (first.andThen second) last raised killed :=
  holds.bind fun _ => after

/-- What holds however a program ends holds of what it leaves. -/
theorem Satisfies.leaves {always : σ → Prop}
    (holds : Satisfies faults pre program (fun _ => always) always always) {state : σ}
    (before : pre state) : always (program faults state).2 := by
  have ended := holds state before
  match result : program faults state with
  | (.returned _, _) =>
    rw [result] at ended
    exact ended
  | (.raised, _) =>
    rw [result] at ended
    exact ended
  | (.killed, _) =>
    rw [result] at ended
    exact ended

/-- An assertion may be shown for one start at a time. -/
theorem satisfies_of_start
    (each : ∀ start, pre start → Satisfies faults (· = start) program returned raised killed) :
    Satisfies faults pre program returned raised killed :=
  fun state before => each state before state rfl

/-- A program that returned from a state did so in its run from that state. -/
theorem Satisfies.recall {start : σ}
    (holds : Satisfies faults (· = start) program returned raised killed) :
    Satisfies faults (· = start) program
      (fun value after => returned value after ∧ program faults start = (.returned value, after))
      raised killed := by
  intro state same
  subst same
  have ended := holds state rfl
  match result : program faults state with
  | (.returned value, after) =>
    rw [result] at ended
    exact ⟨ended, rfl⟩
  | (.raised, after) =>
    rw [result] at ended
    exact ended
  | (.killed, after) =>
    rw [result] at ended
    exact ended

/-- A cleanup runs from where its body returned or raised. -/
theorem Satisfies.ensure {cleanup : Program ι σ Unit} {raisedBody : σ → Prop}
    {last : α → σ → Prop}
    (holds : Satisfies faults pre program returned raisedBody killed)
    (afterReturn : ∀ value, Satisfies faults (returned value) cleanup (fun _ => last value)
      raised killed)
    (afterRaise : Satisfies faults raisedBody cleanup (fun _ => raised) raised killed) :
    Satisfies faults pre (program.ensure cleanup) last raised killed := by
  intro state before
  have ended := holds state before
  unfold Program.ensure
  match result : program faults state with
  | (.returned value, next) =>
    rw [result] at ended
    exact (afterReturn value).andThen (satisfies_return fun _ kept => kept) next ended
  | (.raised, next) =>
    rw [result] at ended
    exact afterRaise.andThen (satisfies_raise fun _ kept => kept) next ended
  | (.killed, next) =>
    rw [result] at ended
    exact ended

/-- A handler runs from where its body raised. -/
theorem Satisfies.onRaise {handler : Program ι σ Unit} {raisedBody : σ → Prop}
    (holds : Satisfies faults pre program returned raisedBody killed)
    (handled : Satisfies faults raisedBody handler (fun _ => raised) raised killed) :
    Satisfies faults pre (program.onRaise handler) returned raised killed := by
  intro state before
  have ended := holds state before
  unfold Program.onRaise
  match result : program faults state with
  | (.returned value, next) =>
    rw [result] at ended
    exact ended
  | (.killed, next) =>
    rw [result] at ended
    exact ended
  | (.raised, next) =>
    rw [result] at ended
    have last := handled next ended
    dsimp only
    match outcome : handler faults next with
    | (.returned _, final) =>
      rw [outcome] at last
      exact last
    | (.raised, final) =>
      rw [outcome] at last
      exact last
    | (.killed, final) =>
      rw [outcome] at last
      exact last

/-- A loop keeps what its body keeps for every element. -/
theorem satisfies_forEach {body : α → Program ι σ Unit} {elements : List α}
    (kept : ∀ element ∈ elements, Satisfies faults pre (body element) (fun _ => pre) raised killed) :
    Satisfies faults pre (forEach body elements) (fun _ => pre) raised killed := by
  induction elements with
  | nil => exact satisfies_return fun _ before => before
  | cons element rest ih =>
    apply (kept element List.mem_cons_self).andThen
    exact ih fun other listed => kept other (List.mem_cons_of_mem _ listed)

end Program

end TradingEngine.FaultingPrograms
