import Mathlib.Algebra.Order.Chebyshev
import Mathlib.Algebra.Order.Field.Basic
import Mathlib.LinearAlgebra.Matrix.PosDef
import Mathlib.Tactic.FieldSimp
import Mathlib.Tactic.NormNum.Basic
import Mathlib.Tactic.Ring

/-!
# Second moments of the rows of a matrix

The second moment of a sample is the mean of the outer products of its rows. It is positive
semidefinite because it is a Gram matrix, and by convexity the sum of its squared entries is
at most the mean of the squared norms of the rows, squared again.

A blend moves a matrix towards a multiple of the identity with the same mean on the diagonal.
It keeps the trace and semidefiniteness, and it is definite as soon as it moves at all and
that mean is positive.
-/

namespace TradingEngine.GramMatrices

open Matrix

universe u v w
variable {K : Type u} {ι : Type v} {n : Type w} [Field K]

/-- The mean of the outer products of the rows. -/
def secondMoment [Fintype ι] (rows : Matrix ι n K) : Matrix n n K :=
  (Fintype.card ι : K)⁻¹ • (rowsᵀ * rows)

/-- The squared norm of a row. -/
def squaredNorm [Fintype n] (rows : Matrix ι n K) (row : ι) : K :=
  ∑ column, rows row column * rows row column

/-- The mean of the diagonal. -/
def meanDiagonal [Fintype n] (matrix : Matrix n n K) : K :=
  matrix.trace / Fintype.card n

/-- The multiple of the identity with the same mean of the diagonal. -/
def scaledIdentity [Fintype n] [DecidableEq n] (matrix : Matrix n n K) : Matrix n n K :=
  meanDiagonal matrix • 1

/-- The step of a matrix towards another. -/
def blend (weight : K) (matrix towards : Matrix n n K) : Matrix n n K :=
  (1 - weight) • matrix + weight • towards

theorem secondMoment_isSymm [Fintype ι] (rows : Matrix ι n K) : (secondMoment rows).IsSymm := by
  rw [IsSymm, secondMoment, transpose_smul, transpose_mul, transpose_transpose]

theorem secondMoment_apply [Fintype ι] (rows : Matrix ι n K) (column other : n) :
    secondMoment rows column other =
      (Fintype.card ι : K)⁻¹ * ∑ row, rows row column * rows row other := by
  simp [secondMoment, Matrix.mul_apply]

theorem secondMoment_submatrix [Fintype ι] (rows : Matrix ι n K) (reordering : n ≃ n) :
    secondMoment (rows.submatrix id reordering) =
      (secondMoment rows).submatrix reordering reordering := by
  ext column other
  simp [secondMoment_apply]

theorem blend_isSymm (weight : K) {matrix towards : Matrix n n K} (first : matrix.IsSymm)
    (second : towards.IsSymm) : (blend weight matrix towards).IsSymm :=
  (first.smul _).add (second.smul _)

/-- The mean of a symmetric matrix with its transpose is the matrix. -/
theorem symmetrized [CharZero K] {matrix : Matrix n n K} (symmetric : matrix.IsSymm) :
    ((1 / 2 : ℚ) : K) • (matrix + matrixᵀ) = matrix := by
  have half : ((1 / 2 : ℚ) : K) * 2 = 1 := by norm_num
  rw [symmetric.eq, ← two_smul K matrix, smul_smul, half, one_smul]

section Columns
variable [Fintype n]

theorem squaredNorm_submatrix (rows : Matrix ι n K) (reordering : n ≃ n) (row : ι) :
    squaredNorm (rows.submatrix id reordering) row = squaredNorm rows row :=
  Equiv.sum_comp reordering fun column => rows row column * rows row column

theorem meanDiagonal_submatrix (matrix : Matrix n n K) (reordering : n ≃ n) :
    meanDiagonal (matrix.submatrix reordering reordering) = meanDiagonal matrix := by
  have diagonal : (matrix.submatrix reordering reordering).trace = matrix.trace :=
    Equiv.sum_comp reordering fun column => matrix column column
  rw [meanDiagonal, meanDiagonal, diagonal]

theorem sum_submatrix (value : K → K) (matrix : Matrix n n K) (reordering : n ≃ n) :
    ∑ column, ∑ other, value (matrix.submatrix reordering reordering column other) =
      ∑ column, ∑ other, value (matrix column other) := by
  have inner : ∀ column, ∑ other, value (matrix.submatrix reordering reordering column other) =
      ∑ other, value (matrix (reordering column) other) :=
    fun column => Equiv.sum_comp reordering fun other => value (matrix (reordering column) other)
  rw [Finset.sum_congr rfl fun column _ => inner column]
  exact Equiv.sum_comp reordering fun column => ∑ other, value (matrix column other)

/-- A blend with a matrix of the same trace keeps the trace. -/
theorem blend_trace (weight : K) {matrix towards : Matrix n n K}
    (same : towards.trace = matrix.trace) : (blend weight matrix towards).trace = matrix.trace := by
  rw [blend, trace_add, trace_smul, trace_smul, same, smul_eq_mul, smul_eq_mul]
  ring

variable [DecidableEq n]

theorem scaledIdentity_isSymm (matrix : Matrix n n K) : (scaledIdentity matrix).IsSymm :=
  isSymm_one.smul _

theorem scaledIdentity_submatrix (matrix : Matrix n n K) (reordering : n ≃ n) :
    scaledIdentity (matrix.submatrix reordering reordering) =
      (scaledIdentity matrix).submatrix reordering reordering := by
  rw [scaledIdentity, scaledIdentity, meanDiagonal_submatrix, submatrix_smul]
  simp

theorem scaledIdentity_trace [CharZero K] [Nonempty n] (matrix : Matrix n n K) :
    (scaledIdentity matrix).trace = matrix.trace := by
  have counted : (Fintype.card n : K) ≠ 0 := Nat.cast_ne_zero.mpr Fintype.card_ne_zero
  rw [scaledIdentity, trace_smul, trace_one, meanDiagonal, smul_eq_mul, div_mul_cancel₀ _ counted]

end Columns

variable [Fintype n] [LinearOrder K]

/-- Convexity of the square, entry by entry: the squared entries of the second moment are at
most the mean of the fourth powers of the norms of the rows. -/
theorem sum_secondMoment_sq_le [Fintype ι] [IsStrictOrderedRing K] (rows : Matrix ι n K) :
    ∑ column, ∑ other, secondMoment rows column other ^ 2 ≤
      (Fintype.card ι : K)⁻¹ * ∑ row, squaredNorm rows row ^ 2 := by
  have entry : ∀ column other, secondMoment rows column other ^ 2 ≤
      (Fintype.card ι : K)⁻¹ * ∑ row, (rows row column * rows row other) ^ 2 := by
    intro column other
    rw [secondMoment_apply, mul_pow]
    have convex : (∑ row, rows row column * rows row other) ^ 2 ≤
        (Fintype.card ι : K) * ∑ row, (rows row column * rows row other) ^ 2 :=
      sq_sum_le_card_mul_sum_sq
    rcases eq_or_ne (Fintype.card ι : K) 0 with none | some
    · simp [none]
    · calc ((Fintype.card ι : K)⁻¹) ^ 2 * (∑ row, rows row column * rows row other) ^ 2
          ≤ ((Fintype.card ι : K)⁻¹) ^ 2 *
              ((Fintype.card ι : K) * ∑ row, (rows row column * rows row other) ^ 2) :=
            mul_le_mul_of_nonneg_left convex (sq_nonneg _)
        _ = (Fintype.card ι : K)⁻¹ * ∑ row, (rows row column * rows row other) ^ 2 := by
            field_simp
  have norms : ∀ row, squaredNorm rows row ^ 2 =
      ∑ column, ∑ other, (rows row column * rows row other) ^ 2 := by
    intro row
    rw [squaredNorm, sq, Finset.sum_mul_sum]
    refine Finset.sum_congr rfl fun column _ => Finset.sum_congr rfl fun other _ => ?_
    ring
  calc ∑ column, ∑ other, secondMoment rows column other ^ 2
      ≤ ∑ column, ∑ other, (Fintype.card ι : K)⁻¹ *
          ∑ row, (rows row column * rows row other) ^ 2 :=
        Finset.sum_le_sum fun column _ => Finset.sum_le_sum fun other _ => entry column other
    _ = (Fintype.card ι : K)⁻¹ *
          ∑ column, ∑ other, ∑ row, (rows row column * rows row other) ^ 2 := by
        simp only [← Finset.mul_sum]
    _ = (Fintype.card ι : K)⁻¹ * ∑ row, squaredNorm rows row ^ 2 := by
        rw [Finset.sum_congr rfl fun row _ => norms row]
        congr 1
        calc ∑ column, ∑ other, ∑ row, (rows row column * rows row other) ^ 2
            = ∑ column, ∑ row, ∑ other, (rows row column * rows row other) ^ 2 :=
              Finset.sum_congr rfl fun column _ => Finset.sum_comm
          _ = ∑ row, ∑ column, ∑ other, (rows row column * rows row other) ^ 2 :=
              Finset.sum_comm

variable [StarRing K] [StarOrderedRing K]

theorem secondMoment_posSemidef [Fintype ι] [TrivialStar K] (rows : Matrix ι n K) :
    (secondMoment rows).PosSemidef := by
  have gram := posSemidef_conjTranspose_mul_self rows
  rw [conjTranspose_eq_transpose_of_trivial] at gram
  exact gram.smul (inv_nonneg.mpr (Nat.cast_nonneg _))

theorem meanDiagonal_nonneg {matrix : Matrix n n K} (semidefinite : matrix.PosSemidef) :
    0 ≤ meanDiagonal matrix :=
  div_nonneg semidefinite.trace_nonneg (Nat.cast_nonneg _)

variable [DecidableEq n] {weight : K} {matrix : Matrix n n K}

/-- A partial step towards the scaled identity keeps semidefiniteness. -/
theorem blend_posSemidef [TrivialStar K] (least : 0 ≤ weight) (most : weight ≤ 1)
    (semidefinite : matrix.PosSemidef) :
    (blend weight matrix (scaledIdentity matrix)).PosSemidef := by
  have identity : (scaledIdentity matrix).PosSemidef :=
    PosSemidef.one.smul (meanDiagonal_nonneg semidefinite)
  exact (semidefinite.smul (sub_nonneg.mpr most)).add (identity.smul least)

/-- A step towards a positive multiple of the identity makes the matrix definite. -/
theorem blend_posDef (moved : 0 < weight) (most : weight ≤ 1)
    (semidefinite : matrix.PosSemidef) (positive : 0 < meanDiagonal matrix) :
    (blend weight matrix (scaledIdentity matrix)).PosDef := by
  have identity : (scaledIdentity matrix).PosDef := PosDef.one.smul positive
  exact PosDef.posSemidef_add (semidefinite.smul (sub_nonneg.mpr most)) (identity.smul moved)

end TradingEngine.GramMatrices
