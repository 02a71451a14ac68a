import TradingEngine.GramMatrices
import Mathlib.Data.Rat.Star
import Mathlib.Tactic.NormNum

/-!
# The shrunk covariance of active returns

The covariance of active returns is shrunk towards a multiple of the identity. The sample
covariance divides by the number of observations, and the weight of the target compares the
spread of the outer products of the rows with the distance of the sample from the target.

The arithmetic is that of a linearly ordered field. An entry that is not finite is missing.
-/

namespace TradingEngine.ActiveRisk

open Matrix GramMatrices

universe u
variable {K : Type u} [Field K] {observations names : ℕ}

/-- The mean of an array. -/
def mean {length : ℕ} (values : Fin length → K) : K :=
  (∑ index, values index) / length

structure Estimate (names : ℕ) (K : Type u) where
  covariance : Matrix (Fin names) (Fin names) K
  shrinkage : K
  sample : Matrix (Fin names) (Fin names) K
  target : Matrix (Fin names) (Fin names) K

section Steps
variable (values : Matrix (Fin observations) (Fin names) K)

def centered : Matrix (Fin observations) (Fin names) K :=
  fun row column => values row column - mean fun other => values other column

def sample : Matrix (Fin names) (Fin names) K :=
  (observations : K)⁻¹ • ((centered values)ᵀ * centered values)

def meanVariance : K :=
  (sample values).trace / names

def target : Matrix (Fin names) (Fin names) K :=
  meanVariance values • 1

def delta : K :=
  (∑ column, ∑ other, (sample values - target values) column other ^ 2) / names

/-- The expression under the maximum of `beta`. -/
def betaTerm : K :=
  (mean (fun row => (∑ column, centered values row column * centered values row column) ^ 2) -
    ∑ column, ∑ other, sample values column other * sample values column other) /
      (names * observations)

variable [LinearOrder K]

def beta : K :=
  max 0 (betaTerm values)

def shrinkage : K :=
  if delta values ≤ ((1 / 10 ^ 30 : ℚ) : K) then 1 else min 1 (beta values / delta values)

def covariance : Matrix (Fin names) (Fin names) K :=
  (1 - shrinkage values) • sample values + shrinkage values • target values

def estimate : Estimate names K where
  covariance := ((1 / 2 : ℚ) : K) • (covariance values + (covariance values)ᵀ)
  shrinkage := shrinkage values
  sample := sample values
  target := target values

end Steps

/-- The estimate of a complete matrix with two rows and one column at least. -/
def ledoitWolf [LinearOrder K] (returns : Matrix (Fin observations) (Fin names) (Option K)) :
    Except String (Estimate names K) :=
  if observations < 2 ∨ names < 1 ∨ ¬ ∀ row column, (returns row column).isSome then
    .error "complete finite return matrix required"
  else
    .ok (estimate (returns.map fun entry => entry.getD 0))

section Laws
variable (values : Matrix (Fin observations) (Fin names) K)

theorem sample_eq : sample values = secondMoment (centered values) := by
  rw [sample, secondMoment, Fintype.card_fin]

theorem meanVariance_eq : meanVariance values = meanDiagonal (sample values) := by
  rw [meanVariance, meanDiagonal, Fintype.card_fin]

theorem target_eq : target values = scaledIdentity (sample values) := by
  rw [target, meanVariance_eq, scaledIdentity]

theorem sample_isSymm : (sample values).IsSymm :=
  sample_eq values ▸ secondMoment_isSymm _

theorem sample_submatrix (reordering : Fin names ≃ Fin names) :
    sample (values.submatrix id reordering) = (sample values).submatrix reordering reordering := by
  have rows : centered (values.submatrix id reordering) =
      (centered values).submatrix id reordering := rfl
  rw [sample_eq, sample_eq, rows, secondMoment_submatrix]

theorem target_submatrix (reordering : Fin names ≃ Fin names) :
    target (values.submatrix id reordering) = (target values).submatrix reordering reordering := by
  rw [target_eq, target_eq, sample_submatrix, scaledIdentity_submatrix]

theorem delta_submatrix (reordering : Fin names ≃ Fin names) :
    delta (values.submatrix id reordering) = delta values := by
  rw [delta, delta, sample_submatrix, target_submatrix]
  congr 1
  exact sum_submatrix (fun entry => entry ^ 2) (sample values - target values) reordering

theorem betaTerm_submatrix (reordering : Fin names ≃ Fin names) :
    betaTerm (values.submatrix id reordering) = betaTerm values := by
  have norms : ∀ row, squaredNorm (centered (values.submatrix id reordering)) row =
      squaredNorm (centered values) row :=
    fun row => squaredNorm_submatrix (centered values) reordering row
  have squares := sum_submatrix (fun entry => entry * entry) (sample values) reordering
  simp only [squaredNorm] at norms
  rw [betaTerm, betaTerm, sample_submatrix, squares]
  simp only [norms]

variable [LinearOrder K]

theorem covariance_eq :
    covariance values =
      blend (shrinkage values) (sample values) (scaledIdentity (sample values)) := by
  rw [covariance, target_eq, blend]

theorem covariance_isSymm : (covariance values).IsSymm :=
  covariance_eq values ▸ blend_isSymm _ (sample_isSymm values) (scaledIdentity_isSymm _)

theorem shrinkage_le_one : shrinkage values ≤ 1 := by
  unfold shrinkage
  split
  · exact le_rfl
  · exact min_le_left _ _

variable [IsStrictOrderedRing K]

/-- The covariance is symmetric already, so its symmetrization changes nothing. -/
theorem estimate_covariance : (estimate values).covariance = covariance values :=
  symmetrized (covariance_isSymm values)

/-- The spread of the outer products is never negative. -/
theorem betaTerm_nonneg : 0 ≤ betaTerm values := by
  have convex := sum_secondMoment_sq_le (centered values)
  rw [← sample_eq, Fintype.card_fin] at convex
  have squares : ∑ column, ∑ other, sample values column other * sample values column other =
      ∑ column, ∑ other, sample values column other ^ 2 := by
    simp only [sq]
  have fourth : mean (fun row =>
      (∑ column, centered values row column * centered values row column) ^ 2) =
        (observations : K)⁻¹ * ∑ row, squaredNorm (centered values) row ^ 2 := by
    rw [mean, div_eq_inv_mul]
    rfl
  rw [betaTerm, squares, fourth]
  exact div_nonneg (sub_nonneg.mpr convex) (by positivity)

theorem shrinkage_nonneg : 0 ≤ shrinkage values := by
  unfold shrinkage
  split
  · exact zero_le_one
  · rename_i apart
    have distance : 0 < delta values := lt_of_le_of_lt (by positivity) (not_le.mp apart)
    exact le_min zero_le_one (div_nonneg (le_max_left _ _) distance.le)

end Laws

section Reordering
variable [LinearOrder K] (values : Matrix (Fin observations) (Fin names) K)
variable (reordering : Fin names ≃ Fin names)

theorem shrinkage_submatrix : shrinkage (values.submatrix id reordering) = shrinkage values := by
  rw [shrinkage, shrinkage, beta, beta, delta_submatrix, betaTerm_submatrix]

theorem covariance_submatrix :
    covariance (values.submatrix id reordering) =
      (covariance values).submatrix reordering reordering := by
  rw [covariance, covariance, shrinkage_submatrix, sample_submatrix, target_submatrix]
  rfl

/-- An estimate with its names reordered. -/
def Estimate.reordered (result : Estimate names K) : Estimate names K where
  covariance := result.covariance.submatrix reordering reordering
  shrinkage := result.shrinkage
  sample := result.sample.submatrix reordering reordering
  target := result.target.submatrix reordering reordering

theorem estimate_submatrix :
    estimate (values.submatrix id reordering) = (estimate values).reordered reordering := by
  simp only [estimate, Estimate.reordered, covariance_submatrix, shrinkage_submatrix,
    sample_submatrix, target_submatrix]
  rfl

end Reordering

section Valid
variable [LinearOrder K]

theorem ledoitWolf_complete {values : Matrix (Fin observations) (Fin names) K}
    (rows : 2 ≤ observations) (columns : 1 ≤ names) :
    ledoitWolf (values.map some) = .ok (estimate values) := by
  have complete : ¬ (observations < 2 ∨ names < 1 ∨
      ¬ ∀ row column, ((values.map some) row column).isSome) := by
    rintro (few | none | missing)
    · omega
    · omega
    · exact missing fun row column => rfl
  rw [ledoitWolf, if_neg complete]
  rfl

theorem ledoitWolf_ok {values : Matrix (Fin observations) (Fin names) K}
    {result : Estimate names K} (estimated : ledoitWolf (values.map some) = .ok result) :
    1 ≤ names ∧ result = estimate values := by
  unfold ledoitWolf at estimated
  split at estimated
  · cases estimated
  · rename_i complete
    push Not at complete
    exact ⟨complete.2.1, (Except.ok.inj estimated).symm⟩

variable [StarRing K]

/-- What a risk matrix has to satisfy. -/
structure Estimate.Valid (result : Estimate names K) : Prop where
  shrinkage_nonneg : 0 ≤ result.shrinkage
  shrinkage_le_one : result.shrinkage ≤ 1
  symmetric : result.covariance.IsSymm
  semidefinite : result.covariance.PosSemidef
  trace : result.covariance.trace = result.sample.trace
  definite : 0 < result.shrinkage → 0 < result.sample.trace / names → result.covariance.PosDef

variable [StarOrderedRing K] [TrivialStar K]

theorem estimate_valid (values : Matrix (Fin observations) (Fin names) K)
    (columns : 1 ≤ names) : (estimate values).Valid := by
  have : Nonempty (Fin names) := ⟨⟨0, columns⟩⟩
  have semidefinite : (sample values).PosSemidef :=
    sample_eq values ▸ secondMoment_posSemidef (centered values)
  have shrunk : (estimate values).covariance =
      blend (shrinkage values) (sample values) (scaledIdentity (sample values)) :=
    (estimate_covariance values).trans (covariance_eq values)
  constructor
  case shrinkage_nonneg => exact shrinkage_nonneg values
  case shrinkage_le_one => exact shrinkage_le_one values
  case symmetric => exact estimate_covariance values ▸ covariance_isSymm values
  case semidefinite =>
    rw [shrunk]
    exact blend_posSemidef (shrinkage_nonneg values) (shrinkage_le_one values) semidefinite
  case trace =>
    rw [shrunk]
    exact blend_trace _ (scaledIdentity_trace (sample values))
  case definite =>
    intro moved positive
    rw [shrunk]
    refine blend_posDef moved (shrinkage_le_one values) semidefinite ?_
    exact meanVariance_eq values ▸ positive

/-- For every complete matrix of finite returns with two rows and one column at least, the
expression under the maximum of `beta` is not negative, the estimate is a valid risk matrix of
the sample covariance, and an estimate of reordered columns is the reordered estimate. -/
theorem ledoitWolf_valid (values : Matrix (Fin observations) (Fin names) K)
    (rows : 2 ≤ observations) (columns : 1 ≤ names) :
    0 ≤ betaTerm values ∧
      ∃ result, ledoitWolf (values.map some) = .ok result ∧ result.sample = sample values ∧
        result.Valid ∧
        ∀ reordering : Equiv.Perm (Fin names),
          ledoitWolf ((values.submatrix id reordering).map some) =
            .ok (result.reordered reordering) := by
  refine ⟨betaTerm_nonneg values, estimate values, ledoitWolf_complete rows columns, rfl,
    estimate_valid values columns, fun reordering => ?_⟩
  rw [ledoitWolf_complete rows columns, estimate_submatrix]

/-- Two names that move on different sessions. -/
def apartReturns : Matrix (Fin 4) (Fin 2) ℚ :=
  !![2, 0; -2, 0; 0, 1; 0, -1]

example : shrinkage apartReturns = 17 / 18 := by decide +kernel

theorem apartReturns_valid :
    (2 ≤ 4 ∧ 1 ≤ 2) ∧ 0 ≤ betaTerm apartReturns ∧
      ∃ result, ledoitWolf (apartReturns.map some) = .ok result ∧
        result.sample = sample apartReturns ∧ result.Valid ∧
        ∀ reordering : Equiv.Perm (Fin 2),
          ledoitWolf ((apartReturns.submatrix id reordering).map some) =
            .ok (result.reordered reordering) :=
  ⟨by decide, ledoitWolf_valid apartReturns (by decide) (by decide)⟩

end Valid

end TradingEngine.ActiveRisk
