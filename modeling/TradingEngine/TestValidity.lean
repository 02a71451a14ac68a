import TradingEngine.ProbabilityTrees
import TradingEngine.SequentialTests

/-!
# Validity of the sequential tests

In exact arithmetic the wealth of a test is the weighted sum of what its atoms have
made of one unit each. Where no difference has a positive conditional mean, no atom is
expected to gain, so the wealth is expected to stay or fall at every node and rarely
becomes high. Over a family this bounds the probability of selecting any member.

A test starts from a wealth of one whatever its weights sum to, and the weights of an
accepted mixture may sum to slightly more than one. The first draw is then expected to
bring the wealth up to that sum, by which all bounds grow; where the weights sum to at
most one nothing grows.
-/

namespace TradingEngine.Sequential

open Runs ProbabilityTrees

noncomputable section

local instance twoNumeral : Nat.AtLeastTwo 2 := ⟨le_rfl⟩
local instance fourNumeral : Nat.AtLeastTwo 4 := ⟨by decide⟩

/-- What an atom has made of one unit. -/
def tilted (tilt : ℝ) (history : List ℝ) : ℝ :=
  (history.map fun difference => 1 + tilt * difference).prod

/-- What weighted atoms have made of their weights. -/
def mixtureWealth (atoms : List (ℝ × ℝ)) (history : List ℝ) : ℝ :=
  (atoms.map fun atom => atom.1 * tilted atom.2 history).sum

/-- Every difference lies within [-2, 2]. -/
def Bounded (history : List ℝ) : Prop := ∀ difference ∈ history, |difference| ≤ 2

/-- Weights are positive and tilts lie strictly between zero and one half. -/
def Proper (atoms : List (ℝ × ℝ)) : Prop :=
  ∀ atom ∈ atoms, 0 < atom.1 ∧ 0 < atom.2 ∧ atom.2 < 1 / 2

section Wealth

theorem Bounded.concat {history : List ℝ} {difference : ℝ} (bounded : Bounded history)
    (small : |difference| ≤ 2) : Bounded (history ++ [difference]) := by
  intro other listed
  rcases List.mem_append.mp listed with earlier | last
  · exact bounded other earlier
  · rw [List.mem_singleton.mp last]
    exact small

theorem factor_pos {tilt difference : ℝ} (positive : 0 < tilt) (small : tilt < 1 / 2)
    (bounded : |difference| ≤ 2) : 0 < 1 + tilt * difference := by
  have lower : -2 ≤ difference := (abs_le.mp bounded).1
  nlinarith

theorem tilted_pos {tilt : ℝ} (positive : 0 < tilt) (small : tilt < 1 / 2) {history : List ℝ}
    (bounded : Bounded history) : 0 < tilted tilt history := by
  refine List.prod_pos ?_
  intro factor listed
  obtain ⟨difference, member, rfl⟩ := List.mem_map.mp listed
  exact factor_pos positive small (bounded difference member)

theorem tilted_concat (tilt : ℝ) (history : List ℝ) (difference : ℝ) :
    tilted tilt (history ++ [difference]) = tilted tilt history * (1 + tilt * difference) := by
  simp [tilted]

theorem mixtureWealth_nil (atoms : List (ℝ × ℝ)) :
    mixtureWealth atoms [] = (atoms.map Prod.fst).sum := by
  simp [mixtureWealth, tilted]

/-- A draw whose mean is not positive is not expected to enrich weighted atoms. -/
theorem expected_wealth_le {atoms : List (ℝ × ℝ)} (proper : Proper atoms) {history : List ℝ}
    (bounded : Bounded history) {width : ℕ} {chance difference : Fin width → ℝ}
    (total : ∑ branch, chance branch = 1)
    (mean : ∑ branch, chance branch * difference branch ≤ 0) :
    ∑ branch, chance branch * mixtureWealth atoms (history ++ [difference branch]) ≤
      mixtureWealth atoms history := by
  induction atoms with
  | nil => simp [mixtureWealth]
  | cons atom rest ih =>
    have others := ih fun other listed => proper other (List.mem_cons_of_mem _ listed)
    obtain ⟨weight, positive, small⟩ := proper atom List.mem_cons_self
    have wealth := tilted_pos positive small bounded
    have first : ∑ branch, chance branch *
        (atom.1 * tilted atom.2 (history ++ [difference branch])) ≤
          atom.1 * tilted atom.2 history := by
      calc ∑ branch, chance branch * (atom.1 * tilted atom.2 (history ++ [difference branch]))
          = atom.1 * tilted atom.2 history * (∑ branch, chance branch) +
              atom.1 * tilted atom.2 history * atom.2 *
                ∑ branch, chance branch * difference branch := by
            rw [Finset.mul_sum, Finset.mul_sum, ← Finset.sum_add_distrib]
            refine Finset.sum_congr rfl fun branch _ => ?_
            rw [tilted_concat]
            ring
        _ ≤ atom.1 * tilted atom.2 history := by
            have scale : 0 < atom.1 * tilted atom.2 history * atom.2 := by positivity
            rw [total]
            nlinarith
    calc ∑ branch, chance branch * mixtureWealth (atom :: rest) (history ++ [difference branch])
        = (∑ branch, chance branch * (atom.1 * tilted atom.2 (history ++ [difference branch]))) +
            ∑ branch, chance branch * mixtureWealth rest (history ++ [difference branch]) := by
          rw [← Finset.sum_add_distrib]
          refine Finset.sum_congr rfl fun branch _ => ?_
          simp only [mixtureWealth, List.map_cons, List.sum_cons]
          ring
      _ ≤ atom.1 * tilted atom.2 history + mixtureWealth rest history := add_le_add first others
      _ = mixtureWealth (atom :: rest) history := by
          simp only [mixtureWealth, List.map_cons, List.sum_cons]

end Wealth

section Logarithms

/-- The loop computes the logarithm of a sum of exponentials. -/
theorem exp_logSumExp {terms : List ℝ} (some_ : terms ≠ []) :
    Real.exp (logSumExp terms) = (terms.map Real.exp).sum := by
  have positive : 0 < (terms.map fun term => Real.exp (term - terms.max?.getD 0)).sum := by
    refine List.sum_pos _ ?_ (by simpa using some_)
    intro part listed
    obtain ⟨term, -, rfl⟩ := List.mem_map.mp listed
    exact Real.exp_pos _
  rw [logSumExp, Real.exp_add, Real.exp_log positive, ← List.sum_map_mul_left]
  congr 2
  funext term
  rw [← Real.exp_add]
  congr 1
  ring

theorem testState_nil (lambdas weights : List ℝ) :
    testState lambdas weights [] = ⟨lambdas.map fun _ => 0, [], 0, none⟩ := rfl

theorem testState_concat (lambdas weights history : List ℝ) (difference : ℝ) :
    testState lambdas weights (history ++ [difference]) =
      observe lambdas weights (testState lambdas weights history) (difference, history.length) := by
  simp [testState, List.zipIdx_append]

/-- Every atom keeps the logarithm of what it made of one unit. -/
theorem components_eq (lambdas weights history : List ℝ) :
    (testState lambdas weights history).components = lambdas.map fun tilt =>
      (history.map fun difference => Real.log (1 + tilt * difference)).sum := by
  induction history using List.reverseRecOn with
  | nil => simp [testState_nil]
  | append_singleton earlier last ih =>
    rw [testState_concat]
    simp only [observe, ih, List.zipWith_map_left, List.zipWith_self]
    simp

/-- An atom's logarithm is that of what it made of one unit. -/
theorem exp_component {tilt : ℝ} (positive : 0 < tilt) (small : tilt < 1 / 2) {history : List ℝ}
    (bounded : Bounded history) :
    Real.exp (history.map fun difference => Real.log (1 + tilt * difference)).sum =
      tilted tilt history := by
  induction history with
  | nil => simp [tilted]
  | cons first rest ih =>
    have later : Bounded rest := fun other listed => bounded other (List.mem_cons_of_mem _ listed)
    rw [List.map_cons, List.sum_cons, Real.exp_add, ih later,
      Real.exp_log (factor_pos positive small (bounded first List.mem_cons_self))]
    simp [tilted]

variable {lambdas : List ℝ}

theorem sum_exp_terms {weights : List ℝ} (proper : Proper (weights.zip lambdas))
    {history : List ℝ} (bounded : Bounded history) :
    ((List.zipWith (fun weight component => Real.log weight + component) weights
      (lambdas.map fun tilt =>
        (history.map fun difference => Real.log (1 + tilt * difference)).sum)).map Real.exp).sum =
      mixtureWealth (weights.zip lambdas) history := by
  rw [List.zipWith_map_right, ← List.map_uncurry_zip_eq_zipWith, List.map_map, mixtureWealth]
  refine congrArg List.sum (List.map_congr_left fun atom listed => ?_)
  obtain ⟨weight, positive, small⟩ := proper atom listed
  simp only [Function.comp_apply, Function.uncurry, Real.exp_add, Real.exp_log weight]
  rw [exp_component positive small bounded]

/-- The wealth of a test: one before any difference, and that of its atoms from then on. -/
def testWealth (atoms : List (ℝ × ℝ)) (history : List ℝ) : ℝ :=
  if history = [] then 1 else mixtureWealth atoms history

/-- The last entry of the path is the logarithm of the wealth. -/
theorem exp_last {weights : List ℝ} (same : lambdas.length = weights.length)
    (some_ : lambdas ≠ []) (proper : Proper (weights.zip lambdas)) {history : List ℝ}
    (bounded : Bounded history) :
    Real.exp ((testState lambdas weights history).path.getLast?.getD 0) =
      testWealth (weights.zip lambdas) history := by
  induction history using List.reverseRecOn with
  | nil => simp [testState_nil, testWealth]
  | append_singleton earlier last _ =>
    have terms : List.zipWith (fun weight component => Real.log weight + component) weights
        (lambdas.map fun tilt =>
          ((earlier ++ [last]).map fun difference => Real.log (1 + tilt * difference)).sum) ≠ [] := by
      intro empty
      have none := congrArg List.length empty
      simp only [List.length_zipWith, List.length_map, same, min_self, List.length_nil] at none
      exact some_ (List.length_eq_zero_iff.mp (same.trans none))
    have components := components_eq lambdas weights (earlier ++ [last])
    rw [testState_concat] at components ⊢
    simp only [observe] at components
    simp only [observe, components, List.getLast?_append, List.getLast?_singleton, Option.some_or,
      Option.getD_some]
    rw [exp_logSumExp terms, sum_exp_terms proper bounded, testWealth, if_neg (by simp)]

/-- The running maximum reaches the logarithm of a level above one only when some prefix
has that wealth. -/
theorem maximum_reached {weights : List ℝ} (same : lambdas.length = weights.length)
    (some_ : lambdas ≠ []) (proper : Proper (weights.zip lambdas)) {history : List ℝ}
    (bounded : Bounded history) {level : ℝ} (high : 1 < level)
    (reached : Real.log level ≤ (testState lambdas weights history).maximum) :
    ∃ steps, level ≤ testWealth (weights.zip lambdas) (history.take steps) := by
  induction history using List.reverseRecOn with
  | nil =>
    rw [testState_nil] at reached
    exact absurd reached (not_le.mpr (Real.log_pos high))
  | append_singleton earlier last ih =>
    have before : Bounded earlier := fun other listed =>
      bounded other (List.mem_append_left _ listed)
    have current := exp_last same some_ proper bounded
    rw [testState_concat] at reached current
    simp only [observe, List.getLast?_append, List.getLast?_singleton, Option.some_or,
      Option.getD_some] at reached current
    rcases le_max_iff.mp reached with past | now
    · obtain ⟨steps, met⟩ := ih before past
      refine ⟨min steps earlier.length, ?_⟩
      rwa [List.take_append_of_le_length (min_le_right _ _), List.take_eq_take_min.symm]
    · refine ⟨(earlier ++ [last]).length, ?_⟩
      rw [List.take_length, ← current]
      calc level = Real.exp (Real.log level) := (Real.exp_log (by linarith)).symm
        _ ≤ _ := Real.exp_le_exp.mpr now

end Logarithms

section Tests

variable {Digest : Type} [DecidableEq Digest]
  (canonicalSha256 : List ℝ → List ℝ → String → Digest)

def Mixture.atoms (frozen : Mixture Digest) : List (ℝ × ℝ) :=
  frozen.weights.zip frozen.lambdas

/-- A frozen mixture that the test accepts. -/
def Accepted (frozen : Mixture Digest) : Prop :=
  mixture canonicalSha256 frozen = .ok (frozen.lambdas, frozen.weights)

/-- What the acceptance of a mixture establishes. -/
structure InOrder (frozen : Mixture Digest) : Prop where
  same : frozen.lambdas.length = frozen.weights.length
  some_ : frozen.lambdas ≠ []
  proper : Proper frozen.atoms
  total : (frozen.atoms.map Prod.fst).sum = frozen.weights.sum

variable {frozen : Mixture Digest}

theorem Accepted.inOrder {canonicalSha256}
    (accepted : Accepted canonicalSha256 frozen) : InOrder frozen := by
  simp only [Accepted, mixture] at accepted
  split at accepted
  · cases accepted
  · rename_i checks
    simp only [not_or, not_not] at checks
    obtain ⟨same, some_, tilts, weights, -, -⟩ := checks
    refine ⟨same, some_, ?_, ?_⟩
    · intro atom listed
      obtain ⟨weight, tilt⟩ := List.of_mem_zip listed
      have positive : ¬ atom.1 ≤ 0 := fun low => weights ⟨atom.1, weight, low⟩
      have inside : ¬ (atom.2 ≤ 0 ∨ 1 / 2 ≤ atom.2) := fun out => tilts ⟨atom.2, tilt, out⟩
      rw [not_or] at inside
      exact ⟨not_le.mp positive, not_le.mp inside.1, not_le.mp inside.2⟩
    · rw [Mixture.atoms, List.map_fst_zip same.ge]

/-- The wealth that a test reports. -/
def wealth (frozen : Mixture Digest) (history : List ℝ) : ℝ :=
  match mixtureTest canonicalSha256 history frozen with
  | .ok result => Real.exp result.logE
  | .error _ => 0

theorem mixtureTest_ok (accepted : Accepted canonicalSha256 frozen)
    {history : List ℝ} (bounded : Bounded history) :
    ∃ result, mixtureTest canonicalSha256 history frozen = .ok result ∧
      Real.exp result.logE = testWealth frozen.atoms history ∧
      ∀ level, 1 < level → Real.log level ≤ result.maxLogE →
        ∃ steps, level ≤ testWealth frozen.atoms (history.take steps) := by
  obtain ⟨same, some_, proper, -⟩ := accepted.inOrder
  have small : ¬ ∃ difference ∈ history, 2 < |difference| := by
    rintro ⟨difference, listed, large⟩
    exact absurd (bounded difference listed) (not_le.mpr large)
  refine ⟨_, bind_ok.mpr ⟨_, accepted, if_neg small⟩, exp_last same some_ proper bounded, ?_⟩
  intro level high reached
  exact maximum_reached same some_ proper bounded high reached

theorem wealth_eq (accepted : Accepted canonicalSha256 frozen)
    {history : List ℝ} (bounded : Bounded history) :
    wealth canonicalSha256 frozen history = testWealth frozen.atoms history := by
  obtain ⟨result, tested, same, -⟩ := mixtureTest_ok canonicalSha256 accepted bounded
  rw [wealth, tested]
  exact same

/-- The wealth, with a given allowance in place of the wealth at the start. -/
def allowance (start : ℝ) (frozen : Mixture Digest) (history : List ℝ) : ℝ :=
  if history = [] then start else wealth canonicalSha256 frozen history

/-- Draws are paired differences within [-2, 2] whose conditional mean is never positive. -/
def Null : Tree ℝ ℝ → Prop
  | .leaf => True
  | .node _ chance difference next =>
    (∀ branch, |difference branch| ≤ 2) ∧ ∑ branch, chance branch * difference branch ≤ 0 ∧
      ∀ branch, Null (next branch)

theorem everywhere_of_bounded {property : List ℝ → Prop}
    (holds : ∀ history, Bounded history → property history) {tree : Tree ℝ ℝ} (null : Null tree)
    {history : List ℝ} (bounded : Bounded history) : tree.Everywhere property history := by
  induction tree generalizing history with
  | leaf => exact holds history bounded
  | node width chance difference next ih =>
    obtain ⟨small, -, later⟩ := null
    exact ⟨holds history bounded, fun branch =>
      ih branch (later branch) (bounded.concat (small branch))⟩

theorem allowance_concat (start : ℝ)
    (accepted : Accepted canonicalSha256 frozen) {history : List ℝ} {difference : ℝ}
    (bounded : Bounded (history ++ [difference])) :
    allowance canonicalSha256 start frozen (history ++ [difference]) =
      mixtureWealth frozen.atoms (history ++ [difference]) := by
  rw [allowance, if_neg (by simp), wealth_eq canonicalSha256 accepted bounded, testWealth,
    if_neg (by simp)]

/-- The atoms own no more than is allowed. -/
theorem mixtureWealth_le_allowance {start : ℝ}
    (accepted : Accepted canonicalSha256 frozen) (covered : frozen.weights.sum ≤ start)
    {history : List ℝ} (bounded : Bounded history) :
    mixtureWealth frozen.atoms history ≤ allowance canonicalSha256 start frozen history := by
  rw [allowance]
  split
  · rename_i empty
    rw [empty, mixtureWealth_nil, accepted.inOrder.total]
    exact covered
  · rename_i drawn
    rw [wealth_eq canonicalSha256 accepted bounded, testWealth, if_neg drawn]

/-- Where no mean is positive, the wealth is not expected to grow at any node. -/
theorem allowance_descends {start : ℝ}
    (accepted : Accepted canonicalSha256 frozen) (covered : frozen.weights.sum ≤ start)
    {tree : Tree ℝ ℝ} (lawful : tree.Lawful) (null : Null tree) {history : List ℝ}
    (bounded : Bounded history) :
    tree.Descends (allowance canonicalSha256 start frozen) history := by
  induction tree generalizing history with
  | leaf => trivial
  | node width chance difference next ih =>
    obtain ⟨-, total, laws⟩ := lawful
    obtain ⟨small, mean, later⟩ := null
    refine ⟨?_, fun branch => ih branch (laws branch) (later branch)
      (bounded.concat (small branch))⟩
    calc ∑ branch, chance branch *
          allowance canonicalSha256 start frozen (history ++ [difference branch])
        = ∑ branch, chance branch *
            mixtureWealth frozen.atoms (history ++ [difference branch]) := by
          refine Finset.sum_congr rfl fun branch _ => ?_
          rw [allowance_concat canonicalSha256 start accepted (bounded.concat (small branch))]
      _ ≤ mixtureWealth frozen.atoms history :=
          expected_wealth_le accepted.inOrder.proper bounded total mean
      _ ≤ allowance canonicalSha256 start frozen history :=
          mixtureWealth_le_allowance canonicalSha256 accepted covered bounded

theorem wealth_nonneg (frozen : Mixture Digest) (history : List ℝ) :
    0 ≤ wealth canonicalSha256 frozen history := by
  rw [wealth]
  split
  · exact (Real.exp_pos _).le
  · exact le_rfl

theorem wealth_pos (accepted : Accepted canonicalSha256 frozen)
    {history : List ℝ} (bounded : Bounded history) : 0 < wealth canonicalSha256 frozen history := by
  obtain ⟨result, tested, -, -⟩ := mixtureTest_ok canonicalSha256 accepted bounded
  rw [wealth, tested]
  exact Real.exp_pos _

/-- The paths on which the wealth of a test ever reaches a level. -/
def everReaches (frozen : Mixture Digest) (level : ℝ) : Set (List ℝ) :=
  {path | ∃ steps, level ≤ wealth canonicalSha256 frozen (path.take steps)}

/-- A level above one is reached with a probability of at most the start over the level. -/
theorem probability_everReaches_le {start : ℝ}
    (accepted : Accepted canonicalSha256 frozen) (covered : frozen.weights.sum ≤ start)
    (one : 1 ≤ start) {tree : Tree ℝ ℝ} (lawful : tree.Lawful) (null : Null tree) {level : ℝ}
    (high : 1 < level) :
    tree.probability (everReaches canonicalSha256 frozen level) ≤ start / level := by
  have nothing : Bounded [] := fun _ listed => absurd listed List.not_mem_nil
  have inside : everReaches canonicalSha256 frozen level ⊆
      Tree.reaches (allowance canonicalSha256 start frozen) [] level := by
    rintro path ⟨steps, met⟩
    refine ⟨steps, ?_⟩
    rw [List.nil_append, allowance, if_neg]
    · exact met
    · intro empty
      rw [empty, wealth_eq canonicalSha256 accepted nothing, testWealth, if_pos rfl] at met
      exact absurd met (not_le.mpr high)
  have nonnegative : tree.Everywhere
      (fun past => 0 ≤ allowance canonicalSha256 start frozen past) [] := by
    refine everywhere_of_bounded (fun past _ => ?_) null nothing
    rw [allowance]
    split
    · linarith
    · exact wealth_nonneg canonicalSha256 frozen past
  have maximal := Tree.level_mul_probability_le lawful nonnegative
    (allowance_descends canonicalSha256 accepted covered lawful null nothing)
    (zero_le_one.trans high.le)
  rw [allowance, if_pos rfl] at maximal
  rw [le_div_iff₀ (zero_lt_one.trans high), mul_comm]
  exact (mul_le_mul_of_nonneg_left (Tree.probability_mono lawful inside)
    (zero_le_one.trans high.le)).trans maximal

end Tests

section Families

theorem evidence_ok {field : FamilyRow → Option ℝ} {rows : List FamilyRow} {values : List ℝ}
    (read : evidence field rows = .ok values) : rows.map field = values.map some := by
  induction rows generalizing values with
  | nil =>
    cases read
    rfl
  | cons row rest ih =>
    rw [evidence, List.mapM_cons] at read
    obtain ⟨value, first, read⟩ := bind_ok.mp read
    obtain ⟨later, others, read⟩ := bind_ok.mp read
    cases read
    split at first
    · rename_i held
      cases first
      rw [List.map_cons, List.map_cons, held, ih others]
    · cases first

/-- Rows are found for identifiers that all have one. -/
theorem found_rows {rows : List FamilyRow} {ids : List String}
    (named : ∀ id ∈ ids, some id ∈ rows.map FamilyRow.comparisonId) :
    (ids.filterMap fun id => rows.find? fun row => row.comparisonId = some id).map
        FamilyRow.comparisonId = ids.map some ∧
      ∀ row ∈ ids.filterMap fun id => rows.find? fun row => row.comparisonId = some id,
        row ∈ rows := by
  induction ids with
  | nil => exact ⟨rfl, by simp⟩
  | cons id rest ih =>
    obtain ⟨same, inside⟩ := ih fun other listed =>
      named other (List.mem_cons_of_mem _ listed)
    obtain ⟨row, stored, holds⟩ := List.mem_map.mp (named id List.mem_cons_self)
    cases found : rows.find? fun row => row.comparisonId = some id with
    | none => exact absurd holds (by simpa using List.find?_eq_none.mp found row stored)
    | some first =>
      have called : first.comparisonId = some id := by simpa using List.find?_some found
      simp only [List.filterMap_cons, found]
      refine ⟨by rw [List.map_cons, List.map_cons, called, same], ?_⟩
      intro other listed
      rcases List.mem_cons.mp listed with rfl | later
      · exact List.mem_of_find?_eq_some found
      · exact inside other later

variable {familyIds : List String}

theorem orderedRows_ok {rows ordered : List FamilyRow}
    (listed : orderedRows rows familyIds = .ok ordered) :
    ordered.map FamilyRow.comparisonId = familyIds.map some ∧ ∀ row ∈ ordered, row ∈ rows := by
  simp only [orderedRows] at listed
  split at listed
  · cases listed
  split at listed
  · cases listed
  rename_i complete
  cases listed
  simp only [not_or, not_not, List.all_eq_true, decide_eq_true_eq] at complete
  exact found_rows complete.2.2

/-- A selected member has evidence that reaches the family's level. -/
theorem selected_reaches {rows : List FamilyRow}
    {reportAt : Option Instant} {originEndpoint : ℤ} {allocation : String} {level : ℝ}
    {report : CommonReport}
    (reported : commonReportETest rows familyIds reportAt originEndpoint allocation level =
      .ok report) (selects : true ∈ report.selected) :
    ∃ id ∈ familyIds, ∃ row ∈ rows, row.comparisonId = some id ∧
      ∃ value ∈ row.maxLogE, Real.log (familyIds.length / FAMILY_ALPHA) ≤ value := by
  simp only [commonReportETest] at reported
  split at reported
  · cases reported
  split at reported
  · cases reported
  rename_i registered
  obtain ⟨ordered, listed, reported⟩ := bind_ok.mp reported
  split at reported
  · cases reported
  split at reported
  · cases reported
  split at reported
  · cases reported
  obtain ⟨current, -, reported⟩ := bind_ok.mp reported
  obtain ⟨maximum, evident, reported⟩ := bind_ok.mp reported
  split at reported
  · cases reported
  obtain ⟨lifetime, chosen, reported⟩ := bind_ok.mp reported
  obtain ⟨descriptive, -, rfl⟩ := map_ok.mp reported
  obtain ⟨named, stored⟩ := orderedRows_ok listed
  have values := evidence_ok evident
  have size : maximum.length = familyIds.length := by
    have one := congrArg List.length values
    have two := congrArg List.length named
    simp only [List.length_map] at one two
    omega
  simp only [not_or, not_not] at registered
  obtain ⟨rfl, -⟩ := registered
  -- a selected place holds a value that its gate lets through
  obtain ⟨value, held, met⟩ : ∃ value ∈ maximum,
      Real.log (familyIds.length / FAMILY_ALPHA) ≤ value := by
    simp only [multiple] at chosen
    split at chosen
    · cases chosen
    cases chosen
    simp only [List.mem_map, decide_eq_true_eq] at selects
    obtain ⟨screened, place, met⟩ := selects
    rw [← List.map_uncurry_zip_eq_zipWith, List.mem_map] at place
    obtain ⟨⟨entry, gate⟩, pair, rfl⟩ := place
    obtain ⟨value, held, rfl⟩ := List.mem_map.mp (List.of_mem_zip pair).1
    refine ⟨value, held, ?_⟩
    cases gate with
    | false => simp [Function.uncurry] at met
    | true =>
      simp only [Function.uncurry, if_true, List.length_map, size] at met
      exact WithBot.coe_le_coe.mp met
  obtain ⟨row, inside, holds⟩ : ∃ row ∈ ordered, row.maxLogE = some value := by
    have place : some value ∈ ordered.map FamilyRow.maxLogE := by
      rw [values]
      exact List.mem_map_of_mem held
    obtain ⟨row, inside, holds⟩ := List.mem_map.mp place
    exact ⟨row, inside, holds⟩
  obtain ⟨id, member, called⟩ : ∃ id ∈ familyIds, row.comparisonId = some id := by
    have place : row.comparisonId ∈ familyIds.map some := by
      rw [← named]
      exact List.mem_map_of_mem inside
    obtain ⟨id, member, called⟩ := List.mem_map.mp place
    exact ⟨id, member, called.symm⟩
  exact ⟨id, member, row, stored row inside, called, value, holds, met⟩

variable {Digest : Type} [DecidableEq Digest]
  (canonicalSha256 : List ℝ → List ℝ → String → Digest) {Ω : Type} [Fintype Ω]

/-- A comparison under its null: an accepted mixture whose weights sum to no more than the
start, and a sampled path of a tree without a positive conditional mean. -/
structure Comparison (law : FiniteLaw ℝ Ω) (start : ℝ) (frozen : Mixture Digest)
    (tree : Tree ℝ ℝ) (path : Ω → List ℝ) : Prop where
  accepted : Accepted canonicalSha256 frozen
  covered : frozen.weights.sum ≤ start
  lawful : tree.Lawful
  null : Null tree
  follows : law.Follows path tree

/-- The rows of a family report the running maxima of its tests. -/
def Reports (familyIds : List String) (frozen : String → Mixture Digest)
    (path : String → List ℝ) (rows : List FamilyRow) : Prop :=
  ∀ row ∈ rows, ∀ id ∈ familyIds, row.comparisonId = some id →
    ∃ result, mixtureTest canonicalSha256 (path id) (frozen id) = .ok result ∧
      row.maxLogE = some result.maxLogE

/-- The report of the rows selects some member of the family. -/
def Selects (rows : List FamilyRow) (familyIds : List String) (reportAt : Option Instant)
    (originEndpoint : ℤ) (allocation : String) (level : ℝ) : Prop :=
  ∃ report, commonReportETest rows familyIds reportAt originEndpoint allocation level =
    .ok report ∧ true ∈ report.selected

theorem one_lt_level {size : ℕ} (some_ : 0 < size) : 1 < (size : ℝ) / FAMILY_ALPHA := by
  have least : (1 : ℝ) ≤ size := by exact_mod_cast some_
  rw [FAMILY_ALPHA, lt_div_iff₀ (by norm_num)]
  linarith

/-- A selected member's wealth reaches the family's level somewhere on its path. -/
theorem selects_everReaches {frozen : String → Mixture Digest}
    (accepted : ∀ id ∈ familyIds, Accepted canonicalSha256 (frozen id))
    {path : String → List ℝ} {rows : List FamilyRow}
    (reports : Reports canonicalSha256 familyIds frozen path rows) {reportAt : Option Instant}
    {originEndpoint : ℤ} {allocation : String} {level : ℝ}
    (selects : Selects rows familyIds reportAt originEndpoint allocation level) :
    ∃ id ∈ familyIds, path id ∈
      everReaches canonicalSha256 (frozen id) (familyIds.length / FAMILY_ALPHA) := by
  obtain ⟨report, reported, selected⟩ := selects
  obtain ⟨id, member, row, stored, called, value, holds, reached⟩ :=
    selected_reaches reported selected
  obtain ⟨result, tested, maximum⟩ := reports row stored id member called
  obtain rfl : result.maxLogE = value := Option.some.inj (maximum.symm.trans holds)
  have bounded : Bounded (path id) := by
    obtain ⟨⟨lambdas, weights⟩, -, checked⟩ := bind_ok.mp tested
    dsimp only at checked
    split at checked
    · cases checked
    · rename_i small
      intro difference listed
      exact not_lt.mp fun large => small ⟨difference, listed, large⟩
  obtain ⟨again, same, -, reaches⟩ :=
    mixtureTest_ok canonicalSha256 (accepted id member) bounded
  obtain rfl := Except.ok.inj (tested.symm.trans same)
  obtain ⟨steps, met⟩ := reaches _ (one_lt_level (List.length_pos_of_mem member)) reached
  refine ⟨id, member, steps, ?_⟩
  rw [wealth_eq canonicalSha256 (accepted id member)]
  · exact met
  · intro difference listed
    exact bounded difference (List.mem_of_mem_take listed)

/-- For a family of comparisons under their nulls, dependent in any way, each test keeps a
positive wealth, is not expected to gain beyond its start and then at any node, and
reaches the family's level with a probability of at most the start times its share of
the family's alpha; some member is selected with a probability of at most the start
times that alpha. The start is one where every mixture's weights sum to at most one. -/
theorem family_valid (law : FiniteLaw ℝ Ω) {start : ℝ} (one : 1 ≤ start) (familyIds : List String)
    (frozen : String → Mixture Digest) (tree : String → Tree ℝ ℝ) (path : String → Ω → List ℝ)
    (comparison : ∀ id ∈ familyIds,
      Comparison canonicalSha256 law start (frozen id) (tree id) (path id)) :
    (∀ id ∈ familyIds,
      (tree id).Everywhere (fun history => 0 < wealth canonicalSha256 (frozen id) history ∧
        wealth canonicalSha256 (frozen id) history = testWealth (frozen id).atoms history) [] ∧
      (tree id).Descends (allowance canonicalSha256 start (frozen id)) [] ∧
      (tree id).probability
          (everReaches canonicalSha256 (frozen id) (familyIds.length / FAMILY_ALPHA)) ≤
        start * (FAMILY_ALPHA / familyIds.length)) ∧
    ∀ (rows : Ω → List FamilyRow) (reportAt : Option Instant) (originEndpoint : ℤ)
      (allocation : String) (level : ℝ),
      (∀ sample, Reports canonicalSha256 familyIds frozen (fun id => path id sample)
        (rows sample)) →
      law.probability {sample | Selects (rows sample) familyIds reportAt originEndpoint allocation
        level} ≤ start * FAMILY_ALPHA := by
  have nothing : Bounded [] := fun _ listed => absurd listed List.not_mem_nil
  have reached : ∀ id ∈ familyIds, (tree id).probability
      (everReaches canonicalSha256 (frozen id) (familyIds.length / FAMILY_ALPHA)) ≤
        start * (FAMILY_ALPHA / familyIds.length) := by
    intro id member
    obtain ⟨accepted, covered, lawful, null, -⟩ := comparison id member
    have bound := probability_everReaches_le canonicalSha256 accepted covered one lawful null
      (one_lt_level (List.length_pos_of_mem member))
    rwa [div_div_eq_mul_div, mul_div_assoc] at bound
  constructor
  · intro id member
    obtain ⟨accepted, covered, lawful, null, -⟩ := comparison id member
    refine ⟨everywhere_of_bounded ?_ null nothing,
      allowance_descends canonicalSha256 accepted covered lawful null nothing, reached id member⟩
    intro history bounded
    exact ⟨wealth_pos canonicalSha256 accepted bounded,
      wealth_eq canonicalSha256 accepted bounded⟩
  · intro rows reportAt originEndpoint allocation level reports
    have union := law.probability_le_sum familyIds
      {sample | Selects (rows sample) familyIds reportAt originEndpoint allocation level}
      (fun id => {sample | path id sample ∈
        everReaches canonicalSha256 (frozen id) (familyIds.length / FAMILY_ALPHA)})
      (fun sample selects => selects_everReaches canonicalSha256
        (fun id member => (comparison id member).accepted) (reports sample) selects)
    refine union.trans ?_
    have each := List.sum_le_card_nsmul
      (familyIds.map fun id => law.probability {sample | path id sample ∈
        everReaches canonicalSha256 (frozen id) (familyIds.length / FAMILY_ALPHA)})
      (start * (FAMILY_ALPHA / familyIds.length)) (by
        intro chance listed
        obtain ⟨id, member, rfl⟩ := List.mem_map.mp listed
        rw [(comparison id member).follows]
        exact reached id member)
    rw [List.length_map, nsmul_eq_mul] at each
    refine each.trans ?_
    -- the shares of the members add up to the whole, or there is no member
    rcases Nat.eq_zero_or_pos familyIds.length with none | some_
    · rw [none, Nat.cast_zero, zero_mul]
      exact mul_nonneg (zero_le_one.trans one) (by norm_num [FAMILY_ALPHA])
    · have positive : (familyIds.length : ℝ) ≠ 0 := by exact_mod_cast some_.ne'
      rw [mul_left_comm, mul_div_cancel₀ _ positive]

end Families

section Samples

/-- A digest function for examples: the text itself. -/
def sampleSha256 (lambdas weights : List ℝ) (retained : String) : List ℝ × List ℝ × String :=
  (lambdas, weights, retained)

/-- One atom with a tilt of a quarter and a given weight. -/
def sampleMixture (weight : ℝ) : Mixture (List ℝ × List ℝ × String) :=
  ⟨[1 / 4], [weight], "registered_fallback", ([1 / 4], [weight], "registered_fallback")⟩

/-- One observation without a difference. -/
def sampleTree : Tree ℝ ℝ := .node 1 (fun _ => 1) (fun _ => 0) fun _ => .leaf

theorem sampleMixture_accepted {weight : ℝ} (least : 1 ≤ weight) (most : weight ≤ 1 + 1 / 10 ^ 6) :
    Accepted sampleSha256 (sampleMixture weight) := by
  rw [Accepted, mixture, if_neg]
  simp only [sampleMixture, sampleSha256, List.mem_singleton, exists_eq_left, List.length_singleton,
    List.sum_singleton, ne_eq, not_true_eq_false, abs_one, not_or, not_not,
    List.cons_ne_self, false_or, or_false]
  refine ⟨by norm_num, by linarith, ?_⟩
  rw [abs_of_nonneg (by linarith)]
  linarith

theorem sampleTree_lawful : sampleTree.Lawful := by
  simp [sampleTree, Tree.Lawful]

theorem sampleTree_null : Null sampleTree := by
  simp [sampleTree, Null]

theorem family_valid_sample :
    (∀ id ∈ ["challenger"],
      sampleTree.Everywhere (fun history => 0 < wealth sampleSha256 (sampleMixture 1) history ∧
        wealth sampleSha256 (sampleMixture 1) history =
          testWealth (sampleMixture 1).atoms history) [] ∧
      sampleTree.Descends (allowance sampleSha256 1 (sampleMixture 1)) [] ∧
      sampleTree.probability (everReaches sampleSha256 (sampleMixture 1)
          ((["challenger"] : List String).length / FAMILY_ALPHA)) ≤
        1 * (FAMILY_ALPHA / (["challenger"] : List String).length)) ∧
    ∀ (rows : Unit → List FamilyRow) (reportAt : Option Instant) (originEndpoint : ℤ)
      (allocation : String) (level : ℝ),
      (∀ sample, Reports sampleSha256 ["challenger"] (fun _ => sampleMixture 1)
        (fun _ => [0]) (rows sample)) →
      (FiniteLaw.mk (fun _ : Unit => (1 : ℝ)) (by simp) (by simp)).probability
        {sample | Selects (rows sample) ["challenger"] reportAt originEndpoint allocation level} ≤
          1 * FAMILY_ALPHA := by
  refine family_valid sampleSha256 _ le_rfl ["challenger"] (fun _ => sampleMixture 1)
    (fun _ => sampleTree) (fun _ _ => [0]) ?_
  intro id _
  refine ⟨sampleMixture_accepted le_rfl (by norm_num), by simp [sampleMixture],
    sampleTree_lawful, sampleTree_null, ?_⟩
  intro event
  by_cases member : [0] ∈ event <;>
    simp [FiniteLaw.probability, Tree.probability, Tree.expectation, sampleTree, member]

/-- An accepted weight slightly above one makes the wealth grow from one to that weight,
although the only difference is zero. -/
theorem wealth_grows :
    Accepted sampleSha256 (sampleMixture (1 + 1 / 10 ^ 6)) ∧ sampleTree.Lawful ∧ Null sampleTree ∧
      ¬ sampleTree.Descends (wealth sampleSha256 (sampleMixture (1 + 1 / 10 ^ 6))) [] := by
  have accepted : Accepted sampleSha256 (sampleMixture (1 + 1 / 10 ^ 6)) :=
    sampleMixture_accepted (by norm_num) le_rfl
  refine ⟨accepted, sampleTree_lawful, sampleTree_null, ?_⟩
  rintro ⟨step, -⟩
  have before : wealth sampleSha256 (sampleMixture (1 + 1 / 10 ^ 6)) [] = 1 := by
    rw [wealth_eq sampleSha256 accepted (by simp [Bounded]), testWealth, if_pos rfl]
  have after : wealth sampleSha256 (sampleMixture (1 + 1 / 10 ^ 6)) ([] ++ [0]) =
      1 + 1 / 10 ^ 6 := by
    rw [wealth_eq sampleSha256 accepted (by simp [Bounded]), testWealth, if_neg (by simp)]
    simp [mixtureWealth, tilted, Mixture.atoms, sampleMixture]
  simp only [Finset.univ_unique, Finset.sum_singleton, one_mul, before, after] at step
  norm_num at step

end Samples

end

end TradingEngine.Sequential
