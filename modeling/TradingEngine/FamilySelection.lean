import TradingEngine.SequentialTests
import TradingEngine.StepUpRules

/-!
# The descriptive selection of a family

The current e-values of a family are selected by a step-up rule: with `k` members
selected, each of them has to reach the logarithm of the family size over the level
times `k`. The selection that the code makes is the largest set of that kind. The
threshold reported beside it is computed with the full alpha instead of the level of
the family, so it can name a boundary that members below the selection reach as well.
-/

namespace TradingEngine.Sequential

noncomputable section

local instance halfNumeral : Nat.AtLeastTwo 2 := ⟨le_rfl⟩

/-- The boundary of a number of selected members at a level. -/
def eBhBound (size : ℕ) (level : ℝ) (number : ℕ) : ℝ := Real.log (size / (level * number))

/-- The boundaries of every number of selected members. -/
def eBhBounds (size : ℕ) (level : ℝ) (number : ℕ) : WithBot ℝ := eBhBound size level number

variable (logEvalues : List (WithBot ℝ)) (eligible : List Bool)

/-- An eligible comparison whose evidence is at least a threshold. -/
def Reaches (threshold : ℝ) (place : ℕ) : Prop :=
  eligible[place]? = some true ∧ ∃ value ∈ logEvalues[place]?, (threshold : WithBot ℝ) ≤ value

/-- The evidence that a comparison is ranked by. -/
def screenedScore (place : ℕ) : WithBot ℝ :=
  (List.zipWith (fun value gate => if gate then value else ⊥) logEvalues eligible).getD place ⊥

/-- The size of the largest set of comparisons that meets the condition at a level. -/
def eBhRank (level : ℝ) : ℕ :=
  StepUp.rank (screenedScore logEvalues eligible) (eBhBounds logEvalues.length level)
    (List.range logEvalues.length)

/-- Every member of a set reaches the boundary of the size of the set. -/
def EBh (level : ℝ) (places : Finset ℕ) : Prop :=
  ∀ place ∈ places, Reaches logEvalues eligible
    (eBhBound logEvalues.length level places.card) place

def Multiple.places (result : Multiple) : Finset ℕ :=
  (Finset.range result.selected.length).filter fun place => result.selected[place]? = some true

/-- What is selected are the eligible comparisons that reach the reported threshold, and
it is the largest set that meets the condition at the level. -/
structure Consistent (level : ℝ) (result : Multiple) : Prop where
  reported : ∀ place, place ∈ result.places ↔
    ∃ threshold ∈ result.logThreshold, Reaches logEvalues eligible threshold place
  admissible : EBh logEvalues eligible level result.places
  largest : ∀ places, EBh logEvalues eligible level places → places ⊆ result.places

variable {logEvalues eligible}

theorem reaches_iff (same : eligible.length = logEvalues.length) (threshold : ℝ) (place : ℕ) :
    Reaches logEvalues eligible threshold place ↔
      (threshold : WithBot ℝ) ≤ screenedScore logEvalues eligible place := by
  unfold Reaches screenedScore
  rw [List.getD_eq_getElem?_getD, List.getElem?_zipWith]
  by_cases inside : place < logEvalues.length
  · have gated : place < eligible.length := by omega
    rw [List.getElem?_eq_getElem inside, List.getElem?_eq_getElem gated]
    cases gate : eligible[place] with
    | true => simp
    | false => simp
  · rw [List.getElem?_eq_none (Nat.le_of_not_lt inside),
      List.getElem?_eq_none (by omega : eligible.length ≤ place)]
    simp

theorem Reaches.inside {threshold : ℝ} {place : ℕ}
    (reached : Reaches logEvalues eligible threshold place) : place < logEvalues.length := by
  obtain ⟨-, value, stored, -⟩ := reached
  exact (List.getElem?_eq_some_iff.mp stored).1

theorem Reaches.mono {higher lower : ℝ} {place : ℕ}
    (reached : Reaches logEvalues eligible higher place) (le : lower ≤ higher) :
    Reaches logEvalues eligible lower place := by
  obtain ⟨gate, value, stored, above⟩ := reached
  exact ⟨gate, value, stored, le_trans (WithBot.coe_le_coe.mpr le) above⟩

/-- The more are selected together, the lower is the boundary. -/
theorem eBhBound_antitone {size fewer more : ℕ} {level : ℝ} (some_ : 0 < size)
    (positive : 0 < level) (one : 0 < fewer) (le : fewer ≤ more) :
    eBhBound size level more ≤ eBhBound size level fewer := by
  have sized : (0 : ℝ) < size := Nat.cast_pos.mpr some_
  have few : (0 : ℝ) < fewer := Nat.cast_pos.mpr one
  have many : (fewer : ℝ) ≤ more := Nat.cast_le.mpr le
  apply Real.log_le_log
  · have much : (0 : ℝ) < more := lt_of_lt_of_le few many
    positivity
  · apply div_le_div_of_nonneg_left sized.le (by positivity)
    exact mul_le_mul_of_nonneg_left many positive.le

theorem eBhBounds_descends {size : ℕ} {level : ℝ} (some_ : 0 < size) (positive : 0 < level)
    (number : ℕ) (one : 0 < number) :
    eBhBounds size level (number + 1) ≤ eBhBounds size level number :=
  WithBot.coe_le_coe.mpr (eBhBound_antitone some_ positive one (Nat.le_succ number))

theorem sized_of_rank {level : ℝ} (some_ : 0 < eBhRank logEvalues eligible level) :
    0 < logEvalues.length := by
  have most : eBhRank logEvalues eligible level ≤ (List.range logEvalues.length).length :=
    Nat.findGreatest_le _
  rw [List.length_range] at most
  omega

section Selection

variable {level : ℝ} {result : Multiple}

/-- The comparisons in descending order of what they are ranked by. -/
def ranked (logEvalues : List (WithBot ℝ)) (eligible : List Bool) : List ℕ :=
  (List.range logEvalues.length).insertionSort fun first second =>
    screenedScore logEvalues eligible second ≤ screenedScore logEvalues eligible first

theorem ranked_perm : (ranked logEvalues eligible).Perm (List.range logEvalues.length) :=
  List.perm_insertionSort _ _

theorem ranked_descending :
    StepUp.Descending (screenedScore logEvalues eligible) (ranked logEvalues eligible) :=
  List.pairwise_insertionSort _ _

/-- The code's selection is a walk by the step-up rule. -/
theorem multiple_stepUp (same : eligible.length = logEvalues.length) :
    multiple logEvalues eligible .currentEBh level =
      let chosen := match (StepUp.passed (screenedScore logEvalues eligible)
          (eBhBounds logEvalues.length level) (ranked logEvalues eligible)).getLast? with
        | none => ((List.range logEvalues.length).map fun _ => false, none)
        | some last => ((List.range logEvalues.length).map fun index =>
            decide (index ∈ (ranked logEvalues eligible).take (last.2 + 1)),
          some (eBhBound logEvalues.length ALPHA (last.2 + 1)))
      .ok ⟨chosen.1, chosen.2, chosen.1.count true⟩ := by
  have passes : StepUp.passed (screenedScore logEvalues eligible)
      (eBhBounds logEvalues.length level) (ranked logEvalues eligible) =
        (ranked logEvalues eligible).zipIdx.filter fun (indexed : ℕ × ℕ) =>
          (Real.log (logEvalues.length / (level * (indexed.2 + 1))) : WithBot ℝ) ≤
            screenedScore logEvalues eligible indexed.1 := by
    simp only [StepUp.passed, eBhBounds, eBhBound, Nat.cast_add, Nat.cast_one]
  rw [passes]
  simp only [multiple, same, ne_eq, not_true_eq_false, if_false, eBhBound, Nat.cast_add,
    Nat.cast_one]
  rfl

/-- The members of a set that is given by the places of its members. -/
theorem mem_places (size : ℕ) (marked : ℕ → Bool) (threshold : Option ℝ) (number place : ℕ) :
    place ∈ (⟨(List.range size).map marked, threshold, number⟩ : Multiple).places ↔
      place < size ∧ marked place = true := by
  simp only [Multiple.places, Finset.mem_filter, Finset.mem_range, List.length_map,
    List.length_range, List.getElem?_map]
  constructor
  · rintro ⟨inside, marks⟩
    rw [List.getElem?_range inside] at marks
    exact ⟨inside, by simpa using marks⟩
  · rintro ⟨inside, marks⟩
    rw [List.getElem?_range inside]
    exact ⟨inside, by simpa using marks⟩

/-- The selection and the reported threshold in terms of the rank. -/
theorem multiple_currentEBh (positive : 0 < level)
    (accepted : multiple logEvalues eligible .currentEBh level = .ok result) :
    eligible.length = logEvalues.length ∧
      (∀ place, place ∈ result.places ↔ 0 < eBhRank logEvalues eligible level ∧
        Reaches logEvalues eligible
          (eBhBound logEvalues.length level (eBhRank logEvalues eligible level)) place) ∧
      ∀ threshold, threshold ∈ result.logThreshold ↔ 0 < eBhRank logEvalues eligible level ∧
        eBhBound logEvalues.length ALPHA (eBhRank logEvalues eligible level) = threshold := by
  have same : eligible.length = logEvalues.length := by
    by_contra differ
    simp only [multiple, if_pos differ, reduceCtorEq] at accepted
  refine ⟨same, ?_⟩
  rw [multiple_stepUp same] at accepted
  have last : (StepUp.passed (screenedScore logEvalues eligible)
      (eBhBounds logEvalues.length level) (ranked logEvalues eligible)).getLast?.elim 0
        (fun last => last.2 + 1) = StepUp.rank _ _ _ := StepUp.getLast_passed ranked_descending
  rw [StepUp.rank_perm ranked_perm, ← eBhRank] at last
  cases final : (StepUp.passed (screenedScore logEvalues eligible)
      (eBhBounds logEvalues.length level) (ranked logEvalues eligible)).getLast? with
  | none =>
    simp only [final, Option.elim_none] at last accepted
    cases accepted
    simp only [mem_places, ← last, lt_irrefl, false_and, and_false, Bool.false_eq_true,
      Option.not_mem_none, implies_true, and_self]
  | some place =>
    simp only [final, Option.elim_some] at last accepted
    cases accepted
    have some_ : 0 < eBhRank logEvalues eligible level := by omega
    have sized := sized_of_rank some_
    simp only [mem_places, decide_eq_true_eq, last, some_, true_and, Option.mem_some_iff,
      implies_true, and_true]
    intro place
    have taken : place ∈ (ranked logEvalues eligible).take (StepUp.rank _ _ _) ↔ _ :=
      StepUp.mem_take_rank ranked_descending (eBhBounds_descends sized positive)
        (by rwa [StepUp.rank_perm ranked_perm])
    rw [StepUp.rank_perm ranked_perm, ← eBhRank, ranked_perm.mem_iff, List.mem_range,
      eBhBounds, ← reaches_iff same] at taken
    rw [taken]
    exact ⟨fun both => both.2.2, fun reached => ⟨reached.inside, reached.inside, reached⟩⟩

/-- The members that reach a boundary, as a set. -/
theorem card_reaching (same : eligible.length = logEvalues.length) (threshold : ℝ)
    {places : Finset ℕ} (reach : ∀ place, place ∈ places →
      Reaches logEvalues eligible threshold place) :
    places.card ≤ StepUp.reaching (screenedScore logEvalues eligible)
      (List.range logEvalues.length) threshold := by
  rw [StepUp.reaching, List.countP_eq_length_filter]
  have listed : places ⊆ ((List.range logEvalues.length).filter fun place =>
      decide ((threshold : WithBot ℝ) ≤ screenedScore logEvalues eligible place)).toFinset := by
    intro place member
    have reached := reach place member
    rw [List.mem_toFinset, List.mem_filter, List.mem_range, decide_eq_true_eq,
      ← reaches_iff same]
    exact ⟨reached.inside, reached⟩
  exact le_trans (Finset.card_le_card listed) (List.toFinset_card_le _)

/-- The number of members that are selected is the rank. -/
theorem card_places (positive : 0 < level)
    (accepted : multiple logEvalues eligible .currentEBh level = .ok result) :
    result.places.card = eBhRank logEvalues eligible level := by
  obtain ⟨same, selected, -⟩ := multiple_currentEBh positive accepted
  by_cases some_ : 0 < eBhRank logEvalues eligible level
  · have sized := sized_of_rank some_
    have count := StepUp.reaching_rank (eBhBounds_descends sized positive) some_
    have listed : result.places = ((List.range logEvalues.length).filter fun place =>
        decide (eBhBounds logEvalues.length level (eBhRank logEvalues eligible level) ≤
          screenedScore logEvalues eligible place)).toFinset := by
      ext place
      rw [selected, List.mem_toFinset, List.mem_filter, List.mem_range, decide_eq_true_eq,
        eBhBounds, ← reaches_iff same]
      exact ⟨fun both => ⟨both.2.inside, both.2⟩, fun both => ⟨some_, both.2⟩⟩
    rw [listed, List.toFinset_card_of_nodup (List.nodup_range.filter _),
      ← List.countP_eq_length_filter]
    exact count
  · have none_ : result.places = ∅ :=
      Finset.eq_empty_of_forall_notMem fun place listed => some_ ((selected place).mp listed).1
    rw [none_, Finset.card_empty]
    omega

theorem card_le_rank (same : eligible.length = logEvalues.length) {places : Finset ℕ}
    (meets : EBh logEvalues eligible level places) :
    places.card ≤ eBhRank logEvalues eligible level := by
  apply StepUp.le_rank
  exact card_reaching same _ meets

/-- What is selected is the largest set that meets the condition at the level. It is what
the reported threshold says if and only if, with `k` the size of the largest set, no
eligible evidence lies between the boundaries of `k` at the level and at alpha. -/
theorem multiple_consistent_iff (positive : 0 < level)
    (accepted : multiple logEvalues eligible .currentEBh level = .ok result) :
    Consistent logEvalues eligible level result ↔
      (0 < eBhRank logEvalues eligible level → ∀ place,
        Reaches logEvalues eligible
            (eBhBound logEvalues.length level (eBhRank logEvalues eligible level)) place ↔
          Reaches logEvalues eligible
            (eBhBound logEvalues.length ALPHA (eBhRank logEvalues eligible level)) place) := by
  obtain ⟨same, selected, reported⟩ := multiple_currentEBh positive accepted
  have size := card_places positive accepted
  constructor
  · intro consistent some_ place
    have here := consistent.reported place
    simp only [selected, reported, some_, true_and, exists_eq_left'] at here
    exact here
  · intro agree
    constructor
    · intro place
      simp only [selected, reported]
      constructor
      · rintro ⟨some_, reached⟩
        exact ⟨_, ⟨some_, rfl⟩, (agree some_ place).mp reached⟩
      · rintro ⟨_, ⟨some_, rfl⟩, reached⟩
        exact ⟨some_, (agree some_ place).mpr reached⟩
    · intro place listed
      rw [size]
      exact ((selected place).mp listed).2
    · intro places meets place listed
      have number : 0 < places.card := Finset.card_pos.mpr ⟨place, listed⟩
      have most := card_le_rank same meets
      rw [selected]
      refine ⟨by omega, (meets place listed).mono ?_⟩
      exact eBhBound_antitone (Nat.zero_lt_of_lt (meets place listed).inside) positive number most

/-- One comparison whose evidence clears both boundaries. -/
theorem oneComparison_consistent :
    ∃ result, multiple [(Real.log 30 : WithBot ℝ)] [true] .currentEBh FAMILY_ALPHA = .ok result ∧
      Consistent [(Real.log 30 : WithBot ℝ)] [true] FAMILY_ALPHA result := by
  refine ⟨_, multiple_stepUp rfl, ?_⟩
  apply (multiple_consistent_iff (by norm_num [FAMILY_ALPHA]) (multiple_stepUp rfl)).mpr
  intro some_ place
  have most : eBhRank [(Real.log 30 : WithBot ℝ)] [true] FAMILY_ALPHA ≤ 1 := Nat.findGreatest_le _
  have one : eBhRank [(Real.log 30 : WithBot ℝ)] [true] FAMILY_ALPHA = 1 := by omega
  rw [one]
  constructor
  · intro reached
    apply reached.mono
    apply Real.log_le_log <;> norm_num [ALPHA, FAMILY_ALPHA]
  · intro reached
    obtain rfl : place = 0 := Nat.lt_one_iff.mp reached.inside
    refine ⟨rfl, _, rfl, WithBot.coe_le_coe.mpr ?_⟩
    apply Real.log_le_log <;> norm_num [FAMILY_ALPHA]

/-- Five comparisons at the boundary of five, and one just below it. -/
def closeCall : List (WithBot ℝ) :=
  List.replicate 5 (Real.log 30 : WithBot ℝ) ++ [(Real.log (49 / 2) : WithBot ℝ)]

theorem closeCall_rank : 5 ≤ eBhRank closeCall (List.replicate 6 true) FAMILY_ALPHA := by
  have meets : EBh closeCall (List.replicate 6 true) FAMILY_ALPHA (Finset.range 5) := by
    intro place listed
    have inside := Finset.mem_range.mp listed
    rw [Finset.card_range]
    refine ⟨List.getElem?_replicate_of_lt (by omega), (Real.log 30 : WithBot ℝ), ?_, ?_⟩
    · rw [closeCall, List.getElem?_append_left (by simpa using inside),
        List.getElem?_replicate_of_lt inside]
      rfl
    · rw [WithBot.coe_le_coe]
      apply Real.log_le_log <;> norm_num [FAMILY_ALPHA, closeCall]
  have most := card_le_rank rfl meets
  rwa [Finset.card_range] at most

/-- The sixth lies between the two boundaries of five, and of six. -/
theorem closeCall_between {number : ℕ} (least : 5 ≤ number) (most : number ≤ 6) :
    eBhBound closeCall.length ALPHA number ≤ Real.log (49 / 2) ∧
      Real.log (49 / 2) < eBhBound closeCall.length FAMILY_ALPHA number := by
  constructor
  · apply Real.log_le_log <;> interval_cases number <;> norm_num [ALPHA, closeCall]
  · apply Real.log_lt_log <;> interval_cases number <;> norm_num [FAMILY_ALPHA, closeCall]

/-- The sixth comparison reaches the reported threshold and is not selected. -/
theorem closeCall_inconsistent :
    ¬ ∀ logEvalues eligible result,
      multiple logEvalues eligible .currentEBh FAMILY_ALPHA = .ok result →
        Consistent logEvalues eligible FAMILY_ALPHA result := by
  intro claimed
  obtain ⟨result, accepted⟩ : ∃ result, multiple closeCall (List.replicate 6 true) .currentEBh
      FAMILY_ALPHA = .ok result := ⟨_, multiple_stepUp rfl⟩
  obtain ⟨-, selected, reported⟩ := multiple_currentEBh (by norm_num [FAMILY_ALPHA]) accepted
  have least := closeCall_rank
  have most : eBhRank closeCall (List.replicate 6 true) FAMILY_ALPHA ≤ 6 := Nat.findGreatest_le _
  obtain ⟨below, above⟩ := closeCall_between least most
  have listed := ((claimed _ _ _ accepted).reported 5).mpr
    ⟨_, (reported _).mpr ⟨by omega, rfl⟩, rfl, _, rfl, WithBot.coe_le_coe.mpr below⟩
  obtain ⟨-, -, value, stored, reached⟩ := (selected 5).mp listed
  cases Option.some.inj stored
  exact absurd (WithBot.coe_le_coe.mp reached) (not_le.mpr above)

end Selection

end

end TradingEngine.Sequential
