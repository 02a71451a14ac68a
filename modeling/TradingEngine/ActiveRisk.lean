import TradingEngine.Runs
import TradingEngine.ShrunkCovariance

/-!
# Active risk and alpha of the names

The inputs of portfolio construction come from 120 sessions of returns and sixty mature
information coefficients. Volatilities and the beta to the index read the last sixty
sessions, the covariance of the active returns reads all of them. The shapes of the arrays
are those of their types, and the square root is a parameter.
-/

namespace TradingEngine.ActiveRisk

open Matrix Runs

universe u
variable {K : Type u} [Field K] [LinearOrder K] {names : ℕ}

structure RiskAndAlpha (names : ℕ) (K : Type u) where
  alphaH5 : Fin names → K
  beta : Fin names → K
  activeVolatility60 : Fin names → K
  residualVolatility60 : Fin names → K
  zScore : Fin names → K
  ic : K
  covarianceH5 : Matrix (Fin names) (Fin names) K
  shrinkage : K

/-- The last sixty of 120 sessions. -/
def recent {α : Type u} (sessions : Fin 120 → α) : Fin 60 → α :=
  fun session => sessions (Fin.natAdd 60 session)

def deviations {length : ℕ} (values : Fin length → K) : Fin length → K :=
  fun index => values index - mean values

/-- The standard deviation with a correction of the degrees of freedom. -/
def std (sqrt : K → K) (ddof : ℕ) {length : ℕ} (values : Fin length → K) : K :=
  sqrt ((∑ index, deviations values index ^ 2) / (length - ddof))

/-- The inputs of five sessions from 120 sessions of returns and sixty information
coefficients. -/
def riskAndAlpha (sqrt : K → K) (stocks : Matrix (Fin 120) (Fin names) K) (spy : Fin 120 → K)
    (score : Fin names → K) (ics : Fin 60 → K) : Except String (RiskAndAlpha names K) :=
  if ∃ session, 1 < |ics session| then
    .error "nonfinite or invalid risk input"
  else
    let spyCentered := deviations (recent spy)
    let spyVarianceSum := ∑ session, spyCentered session * spyCentered session
    if spyVarianceSum ≤ ((1 / 10 ^ 16 : ℚ) : K) then
      .error "degenerate SPY risk history"
    else
      let stockCentered : Fin 60 → Fin names → K :=
        fun session name => deviations (fun other => recent stocks other name) session
      let beta : Fin names → K :=
        fun name => (∑ session, spyCentered session * stockCentered session name) / spyVarianceSum
      let residual : Fin 60 → Fin names → K :=
        fun session name => stockCentered session name - spyCentered session * beta name
      let activeReturns : Matrix (Fin 120) (Fin names) K :=
        fun session name => stocks session name - spy session
      let activeVolatility : Fin names → K :=
        fun name => std sqrt 1 fun session => recent activeReturns session name
      let scoreSd := std sqrt 0 score
      let zScore : Fin names → K :=
        fun name => if ((1 / 10 ^ 12 : ℚ) : K) < scoreSd then deviations score name / scoreSd else 0
      let ic := max 0 (mean ics)
      (ledoitWolf (activeReturns.map some)).map fun shrunk => {
        alphaH5 := fun name => ic * sqrt ((5 : ℚ) : K) * activeVolatility name * zScore name
        beta := beta
        activeVolatility60 := activeVolatility
        residualVolatility60 := fun name => sqrt ((∑ session, residual session name ^ 2) / ((58 : ℚ) : K))
        zScore := zScore
        ic := ic
        covarianceH5 := 5 • shrunk.covariance
        shrinkage := shrunk.shrinkage }

variable {sqrt : K → K} {stocks : Matrix (Fin 120) (Fin names) K} {spy : Fin 120 → K}
variable {score : Fin names → K} {ics : Fin 60 → K} {result : RiskAndAlpha names K}

/-- Whatever is computed, the covariance is five times the estimate of the active returns. -/
theorem riskAndAlpha_covariance
    (computed : riskAndAlpha sqrt stocks spy score ics = .ok result) :
    1 ≤ names ∧
      result.covarianceH5 =
        5 • (estimate fun session name => stocks session name - spy session).covariance := by
  unfold riskAndAlpha at computed
  split at computed
  · cases computed
  · dsimp only at computed
    split at computed
    · cases computed
    · obtain ⟨shrunk, estimated, rfl⟩ := map_ok.mp computed
      obtain ⟨columns, rfl⟩ := ledoitWolf_ok estimated
      exact ⟨columns, rfl⟩

theorem sum_deviations [IsStrictOrderedRing K] (values : Fin names → K) :
    ∑ name, deviations values name = 0 := by
  unfold deviations mean
  rw [Finset.sum_sub_distrib, Finset.sum_const, Finset.card_univ, Fintype.card_fin, nsmul_eq_mul]
  rcases Nat.eq_zero_or_pos names with rfl | positive
  · simp
  · have apart : (names : K) ≠ 0 := Nat.cast_ne_zero.mpr positive.ne'
    rw [mul_div_cancel₀ _ apart, sub_self]

theorem riskAndAlpha_scores [IsStrictOrderedRing K]
    (computed : riskAndAlpha sqrt stocks spy score ics = .ok result) :
    (0 ≤ result.ic ∧ result.ic ≤ 1) ∧ ∑ name, result.zScore name = 0 := by
  unfold riskAndAlpha at computed
  split at computed
  · cases computed
  · rename_i bounded
    push Not at bounded
    dsimp only at computed
    split at computed
    · cases computed
    · obtain ⟨shrunk, estimated, rfl⟩ := map_ok.mp computed
      refine ⟨⟨le_max_left _ _, max_le zero_le_one ?_⟩, ?_⟩
      · have total : ∑ session, ics session ≤ ∑ _ : Fin 60, (1 : K) :=
          Finset.sum_le_sum fun session _ => (le_abs_self _).trans (bounded session)
        rw [mean, div_le_one (by norm_num)]
        simpa using total
      · dsimp only
        split
        · rw [← Finset.sum_div, sum_deviations, zero_div]
        · exact Finset.sum_const_zero

/-- What portfolio construction reads: a risk matrix, an information coefficient and centred
scores. -/
theorem riskAndAlpha_valid [StarRing K] [StarOrderedRing K] [TrivialStar K]
    (computed : riskAndAlpha sqrt stocks spy score ics = .ok result) :
    (result.covarianceH5.IsSymm ∧ result.covarianceH5.PosSemidef) ∧
      (0 ≤ result.ic ∧ result.ic ≤ 1) ∧ ∑ name, result.zScore name = 0 := by
  obtain ⟨columns, five⟩ := riskAndAlpha_covariance computed
  have valid := estimate_valid
    (fun session name => stocks session name - spy session : Matrix (Fin 120) (Fin names) K) columns
  refine ⟨?_, riskAndAlpha_scores computed⟩
  rw [five]
  exact ⟨valid.symmetric.smul _, valid.semidefinite.smul (by norm_num)⟩

/-- An index that moves once and a name that does not. -/
theorem flatName_valid : ∃ result : RiskAndAlpha 1 ℚ,
    riskAndAlpha id (fun _ _ => 0) (fun session => if session = 119 then 1 else 0) (fun _ => 0)
      (fun _ => 0) = .ok result ∧
    (result.covarianceH5.IsSymm ∧ result.covarianceH5.PosSemidef) ∧
      (0 ≤ result.ic ∧ result.ic ≤ 1) ∧ ∑ name, result.zScore name = 0 := by
  have succeeds : (riskAndAlpha id (fun _ _ => 0) (fun session => if session = 119 then 1 else 0)
      (fun _ => 0) (fun _ => 0) : Except String (RiskAndAlpha 1 ℚ)).isOk = true := by
    decide +kernel
  obtain ⟨result, computed⟩ := Runs.exists_ok succeeds
  exact ⟨result, computed, riskAndAlpha_valid computed⟩

end TradingEngine.ActiveRisk
