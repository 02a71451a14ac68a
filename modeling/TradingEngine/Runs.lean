import Mathlib

/-!
# Runs of a step function

A run takes one action after another and keeps every state it passes through.
A step may be allowed only in some states; a run is admissible when each step is
allowed in the state where it is taken. What admissible steps preserve holds in
every state of an admissible run. A computation that may raise is run by a
monadic fold, whose invariants are those of its successful steps and whose steps
can be listed with the states they start from.
-/

namespace TradingEngine.Runs

universe u v w
variable {σ : Type u} {α : Type v} {ε : Type w}

/-- The states of a run, the first one included. -/
def states (step : σ → α → σ) : σ → List α → List σ
  | state, [] => [state]
  | state, action :: rest => state :: states step (step state action) rest

/-- A run ends in one of its states. -/
theorem last_mem_states (step : σ → α → σ) (state : σ) (actions : List α) :
    actions.foldl step state ∈ states step state actions := by
  induction actions generalizing state with
  | nil => exact .head _
  | cons action rest ih => exact .tail _ (ih (step state action))

/-- Every step is allowed in the state where it is taken. -/
def Admissible (step : σ → α → σ) (allowed : σ → α → Prop) : σ → List α → Prop
  | _, [] => True
  | state, action :: rest =>
    allowed state action ∧ Admissible step allowed (step state action) rest

instance decidableAdmissible (step : σ → α → σ) (allowed : σ → α → Prop)
    [∀ state action, Decidable (allowed state action)] :
    ∀ state actions, Decidable (Admissible step allowed state actions)
  | _, [] => inferInstanceAs (Decidable True)
  | state, action :: rest =>
    have := decidableAdmissible step allowed (step state action) rest
    inferInstanceAs (Decidable (allowed state action ∧ Admissible step allowed _ rest))

/-- A run in two parts is admissible when both are. -/
theorem admissible_append {step : σ → α → σ} {allowed : σ → α → Prop} {state : σ}
    {earlier later : List α} :
    Admissible step allowed state (earlier ++ later) ↔
      Admissible step allowed state earlier ∧
        Admissible step allowed (earlier.foldl step state) later := by
  induction earlier generalizing state with
  | nil => simp [Admissible]
  | cons action rest ih =>
    simp [Admissible, ih, and_assoc]

/-- What admissible steps preserve holds throughout an admissible run. -/
theorem invariant_of_steps {step : σ → α → σ} {allowed : σ → α → Prop} {invariant : σ → Prop}
    (kept : ∀ state action, invariant state → allowed state action →
      invariant (step state action))
    {state : σ} {actions : List α} (initially : invariant state)
    (admissible : Admissible step allowed state actions) :
    ∀ reached ∈ states step state actions, invariant reached := by
  induction actions generalizing state with
  | nil =>
    intro reached member
    simp only [states, List.mem_singleton] at member
    exact member ▸ initially
  | cons action rest ih =>
    intro reached member
    simp only [states, List.mem_cons] at member
    rcases member with rfl | later
    · exact initially
    · exact ih (kept _ _ initially admissible.1) admissible.2 reached later

/-- What holds of every admissible step of a good state holds of every step of an
admissible run. -/
theorem admissible_of_invariant {step : σ → α → σ} {allowed safe : σ → α → Prop}
    (invariant : σ → Prop)
    (kept : ∀ state action, invariant state → allowed state action →
      invariant (step state action))
    (secured : ∀ state action, invariant state → allowed state action → safe state action)
    {state : σ} {actions : List α} (initially : invariant state)
    (admissible : Admissible step allowed state actions) :
    Admissible step safe state actions := by
  induction actions generalizing state with
  | nil => trivial
  | cons action rest ih =>
    exact ⟨secured _ _ initially admissible.1,
      ih (kept _ _ initially admissible.1) admissible.2⟩

/-- A run is admissible when every step is allowed everywhere. -/
theorem admissible_of_forall {step : σ → α → σ} {allowed : σ → α → Prop}
    (always : ∀ state action, allowed state action) (state : σ) (actions : List α) :
    Admissible step allowed state actions := by
  induction actions generalizing state with
  | nil => trivial
  | cons action rest ih =>
    exact ⟨always state action, ih (step state action)⟩

/-- What every step preserves holds throughout every run. -/
theorem states_invariant {step : σ → α → σ} (invariant : σ → Prop)
    (kept : ∀ state action, invariant state → invariant (step state action))
    {state : σ} (initially : invariant state) (actions : List α) :
    ∀ reached ∈ states step state actions, invariant reached := by
  have always : Admissible step (fun _ _ => True) state actions :=
    admissible_of_forall (fun _ _ => trivial) state actions
  refine invariant_of_steps ?_ initially always
  intro reached action holds _
  exact kept reached action holds

/-- Every step that a fold reaches is allowed in the state where it is taken. -/
def AdmissibleM (step : σ → α → Except ε σ) (allowed : σ → α → Prop) : σ → List α → Prop
  | _, [] => True
  | state, action :: rest =>
    allowed state action ∧ ∀ next ∈ (step state action).toOption, AdmissibleM step allowed next rest

instance decidableAdmissibleM (step : σ → α → Except ε σ) (allowed : σ → α → Prop)
    [∀ state action, Decidable (allowed state action)] :
    ∀ state actions, Decidable (AdmissibleM step allowed state actions)
  | _, [] => inferInstanceAs (Decidable True)
  | state, action :: rest =>
    have := fun next => decidableAdmissibleM step allowed next rest
    inferInstanceAs (Decidable (allowed state action ∧
      ∀ next ∈ (step state action).toOption, AdmissibleM step allowed next rest))

/-- What steps preserve holds after a fold. -/
theorem foldl_invariant {step : σ → α → σ} (invariant : σ → Prop) {actions : List α}
    (kept : ∀ action ∈ actions, ∀ state, invariant state → invariant (step state action))
    {state : σ} (initially : invariant state) : invariant (actions.foldl step state) := by
  induction actions generalizing state with
  | nil => exact initially
  | cons action rest ih =>
    exact ih (fun other listed => kept other (List.mem_cons_of_mem _ listed))
      (kept action List.mem_cons_self state initially)

/-- A running minimum is at most the first value and every value that it saw. -/
theorem foldl_min_le {β : Type*} [LinearOrder β] (values : List β) (first : β) :
    values.foldl min first ≤ first ∧ ∀ value ∈ values, values.foldl min first ≤ value := by
  induction values generalizing first with
  | nil => simp
  | cons head rest ih =>
    obtain ⟨least, others⟩ := ih (min first head)
    refine ⟨least.trans (min_le_left _ _), ?_⟩
    intro value listed
    rcases List.mem_cons.mp listed with rfl | later
    · exact least.trans (min_le_right _ _)
    · exact others value later

/-- A running maximum is at least the first value and every value that it saw. -/
theorem le_foldl_max {β : Type*} [LinearOrder β] (values : List β) (first : β) :
    first ≤ values.foldl max first ∧ ∀ value ∈ values, value ≤ values.foldl max first := by
  exact @foldl_min_le βᵒᵈ _ values first

theorem exists_ok {β : Type u} {result : Except ε β} (succeeds : result.isOk = true) :
    ∃ value, result = .ok value := by
  cases result with
  | ok value => exact ⟨value, rfl⟩
  | error raised => cases succeeds

/-- A computation in two parts succeeds when both do. -/
theorem bind_ok {β : Type u} {γ : Type v} {first : Except ε β} {second : β → Except ε γ}
    {result : γ} :
    first.bind second = .ok result ↔
      ∃ value, first = .ok value ∧ second value = .ok result := by
  cases first <;> simp [Except.bind]

/-- A mapped computation succeeds when the computation does. -/
theorem map_ok {β : Type u} {γ : Type v} {first : Except ε β} {change : β → γ} {result : γ} :
    first.map change = .ok result ↔ ∃ value, first = .ok value ∧ change value = result := by
  cases first <;> simp [Except.map]

/-- A fold over a longer list succeeds when its first step and the rest do. -/
theorem foldlM_cons_ok {step : σ → α → Except ε σ} {action : α} {rest : List α}
    {state final : σ} :
    (action :: rest).foldlM step state = .ok final ↔
      ∃ next, step state action = .ok next ∧ rest.foldlM step next = .ok final := by
  rw [List.foldlM_cons]
  exact bind_ok

/-- A computation on every element succeeds when each one does. -/
theorem mapM_ok {β : Type v} {compute : α → Except ε β} {elements : List α}
    (each : ∀ element ∈ elements, ∃ value, compute element = .ok value) :
    ∃ values, elements.mapM compute = .ok values ∧
      List.Forall₂ (fun element value => compute element = .ok value) elements values := by
  induction elements with
  | nil => exact ⟨[], rfl, .nil⟩
  | cons element rest ih =>
    obtain ⟨value, first⟩ := each element List.mem_cons_self
    obtain ⟨values, others, computed⟩ := ih fun other listed =>
      each other (List.mem_cons_of_mem _ listed)
    refine ⟨value :: values, ?_, .cons first computed⟩
    rw [List.mapM_cons, first, others]
    rfl

/-- A computation on every element that succeeds lists what it computes from each. -/
theorem mapM_value {β : Type v} {compute : α → Except ε β} {elements : List α} {values : List β}
    (computed : elements.mapM compute = .ok values) :
    ∀ element ∈ elements, ∃ value ∈ values, compute element = .ok value := by
  induction elements generalizing values with
  | nil => simp
  | cons first rest ih =>
    rw [List.mapM_cons] at computed
    obtain ⟨value, one, computed⟩ := bind_ok.mp computed
    obtain ⟨later, others, computed⟩ := bind_ok.mp computed
    cases computed
    intro element listed
    rcases List.mem_cons.mp listed with rfl | member
    · exact ⟨value, List.mem_cons_self, one⟩
    · obtain ⟨found, inside, same⟩ := ih others element member
      exact ⟨found, List.mem_cons_of_mem _ inside, same⟩

/-- A computation on every element that succeeds computes each value from one. -/
theorem mapM_source {β : Type v} {compute : α → Except ε β} {elements : List α} {values : List β}
    (computed : elements.mapM compute = .ok values) :
    ∀ value ∈ values, ∃ element ∈ elements, compute element = .ok value := by
  induction elements generalizing values with
  | nil =>
    cases computed
    simp
  | cons first rest ih =>
    rw [List.mapM_cons] at computed
    obtain ⟨value, one, computed⟩ := bind_ok.mp computed
    obtain ⟨later, others, computed⟩ := bind_ok.mp computed
    cases computed
    intro found listed
    rcases List.mem_cons.mp listed with rfl | member
    · exact ⟨first, List.mem_cons_self, one⟩
    · obtain ⟨element, inside, same⟩ := ih others found member
      exact ⟨element, List.mem_cons_of_mem _ inside, same⟩

/-- Values that a function determines are listed by it. -/
theorem mapM_determined {β : Type v} {compute : α → Except ε β} {value : α → β}
    (determined : ∀ element result, compute element = .ok result → result = value element)
    {elements : List α} {results : List β} (computed : elements.mapM compute = .ok results) :
    results = elements.map value := by
  induction elements generalizing results with
  | nil =>
    cases computed
    rfl
  | cons element rest ih =>
    rw [List.mapM_cons] at computed
    obtain ⟨first, one, computed⟩ := bind_ok.mp computed
    obtain ⟨later, others, computed⟩ := bind_ok.mp computed
    cases computed
    rw [List.map_cons, ← determined element first one, ← ih others]

/-- Values are computed element by element. -/
theorem mapM_of_forall₂ {β γ : Type v} {compute : β → Except ε γ} {related : α → γ → Prop}
    {elements : List α} {others : List β}
    (each : List.Forall₂ (fun element other =>
      ∃ value, compute other = .ok value ∧ related element value) elements others) :
    ∃ values, others.mapM compute = .ok values ∧ List.Forall₂ related elements values := by
  induction each with
  | nil => exact ⟨[], rfl, .nil⟩
  | cons first _ ih =>
    obtain ⟨value, computed, holds⟩ := first
    obtain ⟨values, rest, all⟩ := ih
    refine ⟨value :: values, ?_, .cons holds all⟩
    rw [List.mapM_cons, computed, rest]
    rfl

/-- The steps of a fold, each with the state it starts from. A step that raises is
the last one. -/
def visitedM (step : σ → α → Except ε σ) : σ → List α → List (σ × α)
  | _, [] => []
  | state, action :: rest =>
    (state, action) ::
      match step state action with
      | .ok next => visitedM step next rest
      | .error _ => []

theorem visitedM_mem {step : σ → α → Except ε σ} {state : σ} {actions : List α} :
    ∀ visit ∈ visitedM step state actions, visit.2 ∈ actions := by
  induction actions generalizing state with
  | nil => simp [visitedM]
  | cons action rest ih =>
    intro visit member
    rcases List.mem_cons.mp member with rfl | later
    · exact List.mem_cons_self
    · split at later
      · exact List.mem_cons_of_mem _ (ih visit later)
      · simp at later

/-- What the steps of a fold preserve holds wherever it takes a step. -/
theorem visitedM_invariant {step : σ → α → Except ε σ} (invariant : σ → Prop) {actions : List α}
    {state : σ}
    (kept : ∀ visit ∈ visitedM step state actions, ∀ next, invariant visit.1 →
      step visit.1 visit.2 = .ok next → invariant next)
    (initially : invariant state) :
    ∀ visit ∈ visitedM step state actions, invariant visit.1 := by
  induction actions generalizing state with
  | nil => simp [visitedM]
  | cons action rest ih =>
    intro visit member
    rcases List.mem_cons.mp member with rfl | later
    · exact initially
    · split at later
      · rename_i next stepped
        refine ih ?_ (kept (state, action) List.mem_cons_self next initially stepped)
          visit later
        intro inner listed
        exact kept inner (List.mem_cons_of_mem _ (by simpa [stepped] using listed))
      · simp at later

/-- What the steps of a fold preserve holds after it. -/
theorem foldlM_visited {step : σ → α → Except ε σ} (invariant : σ → Prop) {actions : List α}
    {state final : σ}
    (kept : ∀ visit ∈ visitedM step state actions, ∀ next, invariant visit.1 →
      step visit.1 visit.2 = .ok next → invariant next)
    (initially : invariant state) (completed : actions.foldlM step state = .ok final) :
    invariant final := by
  induction actions generalizing state with
  | nil =>
    simp only [List.foldlM_nil, pure, Except.pure, Except.ok.injEq] at completed
    exact completed ▸ initially
  | cons action rest ih =>
    obtain ⟨next, stepped, remaining⟩ := foldlM_cons_ok.mp completed
    refine ih ?_ (kept (state, action) List.mem_cons_self next initially stepped)
      remaining
    intro inner listed
    exact kept inner (List.mem_cons_of_mem _ (by simpa [stepped] using listed))

/-- A fold that succeeds visits every action. -/
theorem visitedM_covers {step : σ → α → Except ε σ} {actions : List α} {state final : σ}
    (completed : actions.foldlM step state = .ok final) :
    ∀ action ∈ actions, ∃ before, (before, action) ∈ visitedM step state actions := by
  induction actions generalizing state with
  | nil => simp
  | cons first rest ih =>
    obtain ⟨next, stepped, remaining⟩ := foldlM_cons_ok.mp completed
    intro action listed
    rcases List.mem_cons.mp listed with rfl | later
    · exact ⟨state, List.mem_cons_self⟩
    · obtain ⟨before, visited⟩ := ih remaining action later
      exact ⟨before, List.mem_cons_of_mem _ (by simpa [stepped] using visited)⟩

/-- What the steps of a successful fold preserve lasts from any of them to the end. -/
theorem visitedM_lasts {step : σ → α → Except ε σ} (invariant : σ → Prop) {actions : List α}
    {state final : σ}
    (kept : ∀ visit ∈ visitedM step state actions, ∀ next, invariant visit.1 →
      step visit.1 visit.2 = .ok next → invariant next)
    (completed : actions.foldlM step state = .ok final) :
    ∀ visit ∈ visitedM step state actions, ∃ next,
      step visit.1 visit.2 = .ok next ∧ (invariant next → invariant final) := by
  induction actions generalizing state with
  | nil => simp [visitedM]
  | cons first rest ih =>
    obtain ⟨next, stepped, remaining⟩ := foldlM_cons_ok.mp completed
    have inner : ∀ visit ∈ visitedM step next rest, visit ∈ visitedM step state (first :: rest) := by
      intro visit listed
      exact List.mem_cons_of_mem _ (by simpa [stepped] using listed)
    intro visit member
    rcases List.mem_cons.mp member with rfl | later
    · exact ⟨next, stepped, fun holds => foldlM_visited invariant
        (fun visit listed => kept visit (inner visit listed)) holds remaining⟩
    · exact ih (fun visit listed => kept visit (inner visit listed)) remaining visit
        (by simpa [stepped] using later)

/-- What the later steps of a successful fold preserve lasts from a step to the end. -/
theorem visitedM_onward {step : σ → α → Except ε σ} (invariant : σ → Prop) {before : α → α → Prop}
    {actions : List α} {state final : σ} (ordered : actions.Pairwise before)
    (completed : actions.foldlM step state = .ok final) :
    ∀ visit ∈ visitedM step state actions,
      (∀ later ∈ visitedM step state actions, before visit.2 later.2 → ∀ next,
        invariant later.1 → step later.1 later.2 = .ok next → invariant next) →
      ∃ next, step visit.1 visit.2 = .ok next ∧ (invariant next → invariant final) := by
  induction actions generalizing state with
  | nil => simp [visitedM]
  | cons first rest ih =>
    obtain ⟨next, stepped, remaining⟩ := foldlM_cons_ok.mp completed
    obtain ⟨precedes, ordered⟩ := List.pairwise_cons.mp ordered
    have inner : ∀ visit ∈ visitedM step next rest, visit ∈ visitedM step state (first :: rest) := by
      intro visit listed
      exact List.mem_cons_of_mem _ (by simpa [stepped] using listed)
    intro visit member kept
    rcases List.mem_cons.mp member with rfl | later
    · refine ⟨next, stepped, fun holds => foldlM_visited invariant ?_ holds remaining⟩
      intro later listed
      exact kept later (inner later listed) (precedes _ (visitedM_mem later listed))
    · exact ih ordered remaining visit (by simpa [stepped] using later)
        fun other listed => kept other (inner other listed)

/-- What the earlier steps of a fold preserve holds where a step begins. -/
theorem visitedM_before {step : σ → α → Except ε σ} (invariant : σ → Prop) {before : α → α → Prop}
    {actions : List α} {state : σ} (ordered : actions.Pairwise before) (initially : invariant state) :
    ∀ visit ∈ visitedM step state actions,
      (∀ earlier ∈ visitedM step state actions, before earlier.2 visit.2 → ∀ next,
        invariant earlier.1 → step earlier.1 earlier.2 = .ok next → invariant next) →
      invariant visit.1 := by
  induction actions generalizing state with
  | nil => simp [visitedM]
  | cons first rest ih =>
    obtain ⟨precedes, ordered⟩ := List.pairwise_cons.mp ordered
    intro visit member kept
    rcases List.mem_cons.mp member with rfl | later
    · exact initially
    · split at later
      · rename_i next stepped
        have first := kept (state, first) List.mem_cons_self
          (precedes _ (visitedM_mem visit later)) next initially stepped
        refine ih ordered first visit later fun earlier listed => ?_
        exact kept earlier (List.mem_cons_of_mem _ (by simpa [stepped] using listed))
      · simp at later

/-- A measure that each step raises by at most its cost is raised by at most all costs. -/
theorem foldlM_cost {M : Type*} [AddCommMonoid M] [PartialOrder M] [IsOrderedAddMonoid M]
    {step : σ → α → Except ε σ} (measure : σ → M) (cost : α → M) {actions : List α} {state final : σ}
    (each : ∀ visit ∈ visitedM step state actions, ∀ next, step visit.1 visit.2 = .ok next →
      measure next ≤ measure visit.1 + cost visit.2)
    (completed : actions.foldlM step state = .ok final) :
    measure final ≤ measure state + (actions.map cost).sum := by
  induction actions generalizing state with
  | nil =>
    simp only [List.foldlM_nil, pure, Except.pure, Except.ok.injEq] at completed
    simp [completed]
  | cons action rest ih =>
    obtain ⟨next, stepped, remaining⟩ := foldlM_cons_ok.mp completed
    have first := each (state, action) List.mem_cons_self next stepped
    have later := ih (fun visit listed =>
      each visit (List.mem_cons_of_mem _ (by simpa [stepped] using listed))) remaining
    rw [List.map_cons, List.sum_cons, ← add_assoc]
    exact later.trans (add_le_add_left first _)

/-- What successful steps preserve holds after a fold that succeeds. -/
theorem foldlM_invariant {step : σ → α → Except ε σ} (invariant : σ → Prop) {actions : List α}
    (kept : ∀ action ∈ actions, ∀ state next, invariant state → step state action = .ok next →
      invariant next)
    {state final : σ} (initially : invariant state)
    (completed : actions.foldlM step state = .ok final) : invariant final :=
  foldlM_visited invariant
    (fun visit listed next holds stepped =>
      kept visit.2 (visitedM_mem visit listed) visit.1 next holds stepped)
    initially completed

/-- Distinct elements in the order of their first occurrence, one element later. -/
theorem eraseDups_concat {α : Type u} [BEq α] [LawfulBEq α] (earlier : List α) (last : α) :
    (earlier ++ [last]).eraseDups =
      if last ∈ earlier then earlier.eraseDups else earlier.eraseDups ++ [last] := by
  rw [List.eraseDups_append]
  by_cases seen : last ∈ earlier <;> simp [List.removeAll, seen, List.eraseDups_cons]

theorem nodup_eraseDups {α : Type u} [BEq α] [LawfulBEq α] (entries : List α) :
    entries.eraseDups.Nodup := by
  induction entries using List.reverseRecOn with
  | nil => exact List.nodup_nil
  | append_singleton earlier last ih =>
    rw [eraseDups_concat]
    split
    · exact ih
    · rename_i unseen
      refine List.nodup_append_comm.mp (List.nodup_cons.mpr ⟨?_, ih⟩)
      exact fun listed => unseen (List.mem_eraseDups.mp listed)

/-- The last entry of a list that is not empty does not depend on what stands before it. -/
theorem getLast?_cons_or {β : Type v} (f : α → β) (head : α) (rest : List α) (other : Option β) :
    (rest.getLast?.map f).or (some (f head)) = ((head :: rest).getLast?.map f).or other := by
  cases rest with
  | nil => rfl
  | cons next later => simp [List.getLast?_cons]

/-- In an ascending list the entries up to a bound stand in front. -/
theorem le_of_mem_take {β : Type v} [LinearOrder β] (f : α → β) (bound : β) {entries : List α}
    (ascending : entries.Pairwise fun a b => f a ≤ f b) {count : Nat}
    (counted : count ≤ entries.countP fun entry => decide (f entry ≤ bound)) :
    ∀ entry ∈ entries.take count, f entry ≤ bound := by
  induction entries generalizing count with
  | nil => simp
  | cons head tail ih =>
    obtain ⟨above, sorted⟩ := List.pairwise_cons.mp ascending
    cases count with
    | zero => simp
    | succ count =>
      by_cases low : f head ≤ bound
      · rw [List.countP_cons_of_pos (by simpa using low)] at counted
        have behind := ih sorted (Nat.le_of_succ_le_succ counted)
        intro entry member
        rw [List.take_succ_cons] at member
        rcases List.mem_cons.mp member with rfl | later
        · exact low
        · exact behind entry later
      · have none : (head :: tail).countP (fun entry => decide (f entry ≤ bound)) = 0 := by
          apply List.countP_eq_zero.mpr
          intro entry member
          rcases List.mem_cons.mp member with rfl | later
          · simpa using low
          · simpa using (lt_of_not_ge low).trans_le (above entry later)
        omega

end TradingEngine.Runs
