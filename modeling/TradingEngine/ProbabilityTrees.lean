import Mathlib

/-!
# Finite probability trees

A tree branches by chance: every inner node draws one of finitely many outcomes and
goes on with the subtree of that outcome. A path lists the outcomes that were drawn. A
process assigns a value to every history. When the value that is expected after a draw
never exceeds the value before it, a nonnegative process reaches a high level only with
small probability. Several trees may be sampled together, whatever their dependence.
-/

namespace TradingEngine.ProbabilityTrees

variable {𝕜 : Type*} [Field 𝕜] [LinearOrder 𝕜] [IsStrictOrderedRing 𝕜] {α : Type*}

inductive Tree (𝕜 : Type*) (α : Type*) where
  | leaf
  | node (width : ℕ) (chance : Fin width → 𝕜) (outcome : Fin width → α)
      (next : Fin width → Tree 𝕜 α)

namespace Tree

/-- The expected value of a function of the path. -/
def expectation : Tree 𝕜 α → (List α → 𝕜) → 𝕜
  | leaf, value => value []
  | node _ chance outcome next, value =>
    ∑ branch, chance branch * (next branch).expectation fun rest => value (outcome branch :: rest)

/-- The chances at every node are those of one draw. -/
def Lawful : Tree 𝕜 α → Prop
  | leaf => True
  | node _ chance _ next =>
    (∀ branch, 0 ≤ chance branch) ∧ ∑ branch, chance branch = 1 ∧ ∀ branch, (next branch).Lawful

/-- A property of the history holds at every node. -/
def Everywhere (property : List α → Prop) : List α → Tree 𝕜 α → Prop
  | history, leaf => property history
  | history, node _ _ outcome next =>
    property history ∧ ∀ branch, (next branch).Everywhere property (history ++ [outcome branch])

/-- A process is not expected to grow at any node. -/
def Descends (process : List α → 𝕜) : List α → Tree 𝕜 α → Prop
  | _, leaf => True
  | history, node _ chance outcome next =>
    ∑ branch, chance branch * process (history ++ [outcome branch]) ≤ process history ∧
      ∀ branch, (next branch).Descends process (history ++ [outcome branch])

open Classical in
/-- The probability that the path lies in an event. -/
noncomputable def probability (tree : Tree 𝕜 α) (event : Set (List α)) : 𝕜 :=
  tree.expectation fun path => if path ∈ event then 1 else 0

omit [LinearOrder 𝕜] [IsStrictOrderedRing 𝕜] in
/-- At a node, an event is met in the branch that is drawn. -/
theorem probability_node (width : ℕ) (chance : Fin width → 𝕜) (outcome : Fin width → α)
    (next : Fin width → Tree 𝕜 α) (event : Set (List α)) :
    (node width chance outcome next).probability event =
      ∑ branch, chance branch *
        (next branch).probability {rest | outcome branch :: rest ∈ event} :=
  rfl

variable {tree : Tree 𝕜 α}

theorem expectation_mono (lawful : tree.Lawful) {lower upper : List α → 𝕜}
    (below : ∀ path, lower path ≤ upper path) :
    tree.expectation lower ≤ tree.expectation upper := by
  induction tree generalizing lower upper with
  | leaf => exact below []
  | node width chance outcome next ih =>
    obtain ⟨nonnegative, -, rest⟩ := lawful
    refine Finset.sum_le_sum fun branch _ => mul_le_mul_of_nonneg_left ?_ (nonnegative branch)
    exact ih branch (rest branch) fun path => below (outcome branch :: path)

omit [IsStrictOrderedRing 𝕜] in
theorem expectation_const (lawful : tree.Lawful) (value : 𝕜) :
    tree.expectation (fun _ => value) = value := by
  induction tree with
  | leaf => rfl
  | node width chance outcome next ih =>
    obtain ⟨-, total, rest⟩ := lawful
    simp only [expectation, ih _ (rest _), ← Finset.sum_mul, total, one_mul]

theorem probability_le_one (lawful : tree.Lawful) (event : Set (List α)) :
    tree.probability event ≤ 1 := by
  rw [← expectation_const lawful 1]
  refine expectation_mono lawful fun path => ?_
  split
  · exact le_rfl
  · exact zero_le_one

theorem probability_mono (lawful : tree.Lawful) {event larger : Set (List α)}
    (inside : event ⊆ larger) : tree.probability event ≤ tree.probability larger := by
  refine expectation_mono lawful fun path => ?_
  split
  · rename_i member
    rw [if_pos (inside member)]
  · split
    · exact zero_le_one
    · exact le_rfl

omit [Field 𝕜] [LinearOrder 𝕜] [IsStrictOrderedRing 𝕜] in
theorem Everywhere.here {property : List α → Prop} {history : List α}
    (everywhere : tree.Everywhere property history) : property history := by
  cases tree with
  | leaf => exact everywhere
  | node width chance outcome next => exact everywhere.1

/-- The paths on which a process, continued from a history, reaches a level. -/
def reaches (process : List α → 𝕜) (history : List α) (level : 𝕜) : Set (List α) :=
  {path | ∃ steps, level ≤ process (history ++ path.take steps)}

/-- A nonnegative process that is not expected to grow reaches a level with a probability
of at most its present value over that level. -/
theorem level_mul_probability_le {process : List α → 𝕜} (lawful : tree.Lawful)
    {history : List α} (nonnegative : tree.Everywhere (fun past => 0 ≤ process past) history)
    (descends : tree.Descends process history) {level : 𝕜} (positive : 0 ≤ level) :
    level * tree.probability (reaches process history level) ≤ process history := by
  induction tree generalizing history with
  | leaf =>
    by_cases reached : level ≤ process history
    · exact (mul_le_of_le_one_right positive (probability_le_one lawful _)).trans reached
    · have missed : ([] : List α) ∉ reaches process history level := by
        rintro ⟨steps, met⟩
        exact reached (by simpa using met)
      simpa [probability, expectation, missed] using nonnegative.here
  | node width chance outcome next ih =>
    by_cases reached : level ≤ process history
    · exact (mul_le_of_le_one_right positive (probability_le_one lawful _)).trans reached
    · obtain ⟨nonnegativeChance, -, rest⟩ := lawful
      -- the level is reached later, in the branch that is drawn
      have later : ∀ branch, {path | outcome branch :: path ∈ reaches process history level} ⊆
          reaches process (history ++ [outcome branch]) level := by
        rintro branch path ⟨steps, met⟩
        cases steps with
        | zero => exact absurd (by simpa using met) reached
        | succ steps => exact ⟨steps, by simpa using met⟩
      rw [probability_node, Finset.mul_sum]
      refine le_trans (Finset.sum_le_sum fun branch _ => ?_) descends.1
      calc level * (chance branch *
            (next branch).probability {path | outcome branch :: path ∈ reaches process history level})
          ≤ chance branch * (level *
            (next branch).probability (reaches process (history ++ [outcome branch]) level)) := by
            rw [mul_left_comm]
            exact mul_le_mul_of_nonneg_left (mul_le_mul_of_nonneg_left
              (probability_mono (rest branch) (later branch)) positive) (nonnegativeChance branch)
        _ ≤ chance branch * process (history ++ [outcome branch]) :=
            mul_le_mul_of_nonneg_left
              (ih branch (rest branch) (nonnegative.2 branch) (descends.2 branch))
              (nonnegativeChance branch)

end Tree

/-- A finite sample space. -/
structure FiniteLaw (𝕜 : Type*) [Field 𝕜] [LinearOrder 𝕜] (Ω : Type*) [Fintype Ω] where
  weight : Ω → 𝕜
  nonnegative : ∀ sample, 0 ≤ weight sample
  total : ∑ sample, weight sample = 1

namespace FiniteLaw

variable {Ω : Type*} [Fintype Ω] (law : FiniteLaw 𝕜 Ω)

open Classical in
/-- The probability of an event. -/
noncomputable def probability (event : Set Ω) : 𝕜 :=
  ∑ sample, if sample ∈ event then law.weight sample else 0

/-- A sampled path is distributed like the paths of a tree. -/
def Follows (path : Ω → List α) (tree : Tree 𝕜 α) : Prop :=
  ∀ event, law.probability {sample | path sample ∈ event} = tree.probability event

/-- An event of which one of several must hold is no more probable than they are together. -/
theorem probability_le_sum {ι : Type*} (indices : List ι) (event : Set Ω) (parts : ι → Set Ω)
    (covered : ∀ sample ∈ event, ∃ index ∈ indices, sample ∈ parts index) :
    law.probability event ≤ (indices.map fun index => law.probability (parts index)).sum := by
  induction indices generalizing event with
  | nil =>
    have empty : event = ∅ := by
      ext sample
      simpa using covered sample
    simp [empty, probability]
  | cons first rest ih =>
    have others := ih (event \ parts first) (by
      rintro sample ⟨member, other⟩
      obtain ⟨index, listed, inside⟩ := covered sample member
      rcases List.mem_cons.mp listed with rfl | later
      · exact absurd inside other
      · exact ⟨index, later, inside⟩)
    have split : law.probability event ≤
        law.probability (parts first) + law.probability (event \ parts first) := by
      simp only [probability, ← Finset.sum_add_distrib]
      refine Finset.sum_le_sum fun sample _ => ?_
      have weighed := law.nonnegative sample
      by_cases one : sample ∈ event <;> by_cases two : sample ∈ parts first <;>
        simp [one, two, weighed]
    rw [List.map_cons, List.sum_cons]
    exact split.trans (by gcongr)

end FiniteLaw

end TradingEngine.ProbabilityTrees
