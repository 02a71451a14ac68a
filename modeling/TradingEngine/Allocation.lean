import Mathlib

/-!
# Sharing out a limited amount in order

Requests are looked at in order. Each is granted when, together with what is used
so far, it stays within its own limit; a request without a limit is always granted.
Where the limits agree, what is granted stays within the limit, and a request that
fits behind everything asked before it is granted along with all of that. So what
later requests take leaves it its room.
-/

namespace TradingEngine.Allocation

universe u v
variable {α : Type u} {M : Type v} [AddCommGroup M] (size : α → M)

/-- The size of several requests together. -/
def volume (requests : List α) : M := (requests.map size).sum

@[simp] theorem volume_nil : volume size [] = 0 := rfl

@[simp] theorem volume_cons (request : α) (rest : List α) :
    volume size (request :: rest) = size request + volume size rest := rfl

@[simp] theorem volume_append (requests others : List α) :
    volume size (requests ++ others) = volume size requests + volume size others := by
  simp [volume]

theorem volume_perm {requests others : List α} (same : requests.Perm others) :
    volume size requests = volume size others :=
  (same.map size).sum_eq

/-- The volume of a selection, request by request. -/
theorem volume_filter_ite (selected : α → Bool) (requests : List α) :
    volume size (requests.filter selected) =
      (requests.map fun request => if selected request then size request else 0).sum := by
  induction requests with
  | nil => rfl
  | cons request rest ih =>
    rw [List.filter_cons, List.map_cons, List.sum_cons, ← ih]
    split
    · rfl
    · rw [zero_add]

/-- Requests of no size can be left out. -/
theorem volume_filter {counted : α → Bool} {requests : List α}
    (rest : ∀ request ∈ requests, counted request = false → size request = 0) :
    volume size (requests.filter counted) = volume size requests := by
  induction requests with
  | nil => rfl
  | cons request others ih =>
    have later := ih fun other member => rest other (.tail _ member)
    cases mine : counted request with
    | true => rw [List.filter_cons_of_pos mine, volume_cons, volume_cons, later]
    | false =>
      rw [List.filter_cons_of_neg (by simp [mine]), volume_cons, later,
        rest request (.head _) mine, zero_add]

variable [LinearOrder M] (limit : α → Option M)

/-- The requests that are granted, given what is used before them. -/
def granted : M → List α → List α
  | _, [] => []
  | used, request :: rest =>
    if ∃ bound ∈ limit request, bound < used + size request then granted used rest
    else request :: granted (used + size request) rest

theorem granted_sublist (used : M) (requests : List α) :
    (granted size limit used requests).Sublist requests := by
  induction requests generalizing used with
  | nil => exact .slnil
  | cons request rest ih =>
    unfold granted
    split
    · exact (ih used).cons request
    · exact (ih _).cons_cons request

section Ordered

variable [IsOrderedAddMonoid M] {size limit}

theorem volume_nonneg {requests : List α} (nonneg : ∀ request ∈ requests, 0 ≤ size request) :
    0 ≤ volume size requests := by
  refine List.sum_nonneg ?_
  intro amount listed
  obtain ⟨request, member, rfl⟩ := List.mem_map.mp listed
  exact nonneg request member

/-- Leaving requests out makes the volume no larger. -/
theorem volume_le_of_sublist {some all : List α} (fewer : some.Sublist all)
    (nonneg : ∀ request ∈ all, 0 ≤ size request) : volume size some ≤ volume size all := by
  induction fewer with
  | slnil => exact le_rfl
  | cons request _ ih =>
    rw [volume_cons]
    exact (ih fun other member => nonneg other (.tail _ member)).trans
      (le_add_of_nonneg_left (nonneg request (.head _)))
  | cons_cons request _ ih =>
    rw [volume_cons, volume_cons]
    exact add_le_add_right
      (ih fun other member => nonneg other (.tail _ member)) _

/-- Where one limit holds for the requests that are counted, these stay within it; what
the others take only leaves less. -/
theorem granted_within {bound : M} (counted : α → Bool) (requests : List α) (used : M)
    (nonneg : ∀ request ∈ requests, 0 ≤ size request)
    (same : ∀ request ∈ requests, counted request = true → limit request = some bound) :
    used + volume size ((granted size limit used requests).filter counted) ≤ max used bound := by
  induction requests generalizing used with
  | nil => simp [granted]
  | cons request rest ih =>
    have room := fun used => ih used
      (fun other member => nonneg other (.tail _ member))
      (fun other member => same other (.tail _ member))
    have positive := nonneg request (.head _)
    unfold granted
    split
    · exact room used
    · rename_i fits
      have later := room (used + size request)
      by_cases mine : counted request = true
      · -- A counted request was granted, so it stays within the limit by itself.
        have within : used + size request ≤ bound := by
          by_contra exceeds
          exact fits ⟨bound, same request (.head _) mine, not_le.mp exceeds⟩
        rw [List.filter_cons_of_pos mine, volume_cons, ← add_assoc]
        exact (later.trans (max_le within le_rfl)).trans (le_max_right _ _)
      · rw [List.filter_cons_of_neg mine]
        rcases le_total bound (used + size request) with full | spare
        · -- Nothing counted fits behind a full allowance.
          rw [max_eq_left full, add_le_iff_nonpos_right] at later
          calc used + volume size _ ≤ used := add_le_of_nonpos_right later
            _ ≤ max used bound := le_max_left _ _
        · rw [max_eq_right spare] at later
          calc used + volume size _ ≤ used + size request + volume size _ := by
                rw [add_assoc, add_comm (size request)]
                exact add_le_add_right (le_add_of_nonneg_right positive) _
            _ ≤ bound := later
            _ ≤ max used bound := le_max_right _ _

/-- Behind a full allowance no counted request is granted. -/
theorem granted_none {bound : M} (counted : α → Bool) (requests : List α) (used : M)
    (nonneg : ∀ request ∈ requests, 0 ≤ size request)
    (same : ∀ request ∈ requests, counted request = true → limit request = some bound)
    (full : bound < used) : (granted size limit used requests).filter counted = [] := by
  induction requests generalizing used with
  | nil => rfl
  | cons request rest ih =>
    have none := fun used => ih used
      (fun other member => nonneg other (.tail _ member))
      (fun other member => same other (.tail _ member))
    have more : bound < used + size request :=
      full.trans_le (le_add_of_nonneg_right (nonneg request (.head _)))
    unfold granted
    split
    · exact none used full
    · rename_i fits
      have other : ¬ counted request = true :=
        fun mine => fits ⟨bound, same request (.head _) mine, more⟩
      rw [List.filter_cons_of_neg other]
      exact none _ more

end Ordered

end TradingEngine.Allocation
