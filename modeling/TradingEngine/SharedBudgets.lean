import Mathlib.Algebra.Order.BigOperators.Group.List
import Mathlib.Algebra.Order.Group.Basic
import Mathlib.Algebra.Order.Sub.Basic
import Mathlib.Data.List.Nodup
import Mathlib.Logic.Equiv.Basic

/-!
# Requests served in turn from one budget

A rule grants each request something from what is left of a budget and spends for it. A
request that the budget covers is granted in full; one that it does not cover is cut, the
more the less is left, down to nothing. The requests of a list are served in its order.

What a request is granted depends on that order exactly when the requests that the whole
budget could serve at all do not fit into it together and there are at least two of them.
Requests may share a name and then receive under it together. That a dependence shows under
the names is stated for requests of different names only.
-/

namespace TradingEngine.SharedBudgets

universe u v w
variable {α : Type u} {K : Type v} {ι : Type w} [AddCommGroup K]

/-- What is granted under one name. -/
def received [DecidableEq ι] (name : α → ι) (granted : List (α × K)) (sought : ι) : K :=
  ((granted.filter fun entry => decide (name entry.1 = sought)).map Prod.snd).sum

theorem received_cons [DecidableEq ι] (name : α → ι) (entry : α × K) (rest : List (α × K))
    (sought : ι) :
    received name (entry :: rest) sought =
      (if name entry.1 = sought then entry.2 else 0) + received name rest sought := by
  by_cases same : name entry.1 = sought
  · rw [received, List.filter_cons_of_pos (by simpa using same), if_pos same]
    rfl
  · rw [received, List.filter_cons_of_neg (by simpa using same), if_neg same, zero_add]
    rfl

theorem received_perm [DecidableEq ι] {name : α → ι} {granted others : List (α × K)}
    (reordered : granted.Perm others) (sought : ι) :
    received name granted sought = received name others sought :=
  ((reordered.filter _).map Prod.snd).sum_eq

/-- Under different names each request receives its own grant. -/
theorem received_own [DecidableEq ι] {name : α → ι} {granted : List (α × K)} {entry : α × K}
    (listed : entry ∈ granted)
    (distinct : (granted.map fun entry => name entry.1).Nodup) :
    received name granted (name entry.1) = entry.2 := by
  induction granted with
  | nil => cases listed
  | cons head rest ih =>
    rw [List.map_cons, List.nodup_cons] at distinct
    rcases List.mem_cons.mp listed with rfl | later
    · have others : rest.filter (fun other => decide (name other.1 = name entry.1)) = [] := by
        rw [List.filter_eq_nil_iff]
        intro other inside same
        refine distinct.1 (List.mem_map.mpr ⟨other, inside, ?_⟩)
        simpa using same
      rw [received, List.filter_cons_of_pos (by simp), others]
      simp
    · have differs : name head.1 ≠ name entry.1 := by
        intro same
        exact distinct.1 (List.mem_map.mpr ⟨entry, later, same.symm⟩)
      rw [received, List.filter_cons_of_neg (by simpa using differs)]
      exact ih later distinct.2

variable [LinearOrder K]

/-- How a request is granted and paid for from what is left of a budget. -/
structure Rule (α : Type u) (K : Type v) [AddCommGroup K] [LinearOrder K] where
  need : α → K
  full : α → K
  grant : K → α → K
  spent : K → α → K
  grant_nonneg : ∀ left request, 0 ≤ grant left request
  grant_mono : ∀ {less more} request, less ≤ more → grant less request ≤ grant more request
  grant_covered : ∀ {left request}, need request ≤ left → grant left request = full request
  spent_covered : ∀ {left request}, need request ≤ left → spent left request = need request
  grant_short : ∀ {left request}, 0 < full request → left < need request →
    grant left request < full request
  grant_cut : ∀ {less more request}, 0 < grant more request → less < more →
    more < need request → grant less request < grant more request
  spent_nonneg : ∀ left request, 0 ≤ spent left request
  spent_none : ∀ {left request}, grant left request = 0 → spent left request = 0
  spent_some : ∀ {left request}, 0 < grant left request → 0 < spent left request

variable (rule : Rule α K)

/-- Serve the requests in order. -/
def serve : K → List α → List (α × K)
  | _, [] => []
  | left, request :: rest =>
    (request, rule.grant left request) :: serve (left - rule.spent left request) rest

/-- What a budget could serve if the request came first. -/
def Usable (budget : K) (request : α) : Prop := 0 < rule.grant budget request

instance (budget : K) (request : α) : Decidable (Usable rule budget request) :=
  inferInstanceAs (Decidable (0 < rule.grant budget request))

/-- The requests that a budget could serve. -/
def usable (budget : K) (requests : List α) : List α :=
  requests.filter fun request => Usable rule budget request

/-- The usable requests fit into the budget together, or there is at most one. -/
def Fits (budget : K) (requests : List α) : Prop :=
  ((usable rule budget requests).map rule.need).sum ≤ budget ∨
    (usable rule budget requests).length ≤ 1

instance (budget : K) (requests : List α) : Decidable (Fits rule budget requests) :=
  inferInstanceAs (Decidable (_ ∨ _))

variable {rule}

theorem need_nonneg (request : α) : 0 ≤ rule.need request := by
  have paid := rule.spent_nonneg (rule.need request) request
  rwa [rule.spent_covered le_rfl] at paid

/-- What the whole budget cannot serve is not served from less, and costs nothing. -/
theorem unusable_none {budget left : K} {request : α} (unusable : ¬ Usable rule budget request)
    (within : left ≤ budget) : rule.grant left request = 0 ∧ rule.spent left request = 0 := by
  have none : rule.grant left request = 0 :=
    le_antisymm ((rule.grant_mono request within).trans (not_lt.mp unusable))
      (rule.grant_nonneg left request)
  exact ⟨none, rule.spent_none none⟩

theorem serve_requests (left : K) (requests : List α) :
    (serve rule left requests).map Prod.fst = requests := by
  induction requests generalizing left with
  | nil => rfl
  | cons request rest ih =>
    simp only [serve, List.map_cons, ih]

theorem serve_names (name : α → ι) (left : K) (requests : List α) :
    (serve rule left requests).map (fun entry => name entry.1) = requests.map name := by
  rw [← Function.comp_def name Prod.fst, ← List.map_map, serve_requests]

variable {requests : List α}

theorem Fits.perm {budget : K} {others : List α} (fits : Fits rule budget requests)
    (reordered : requests.Perm others) : Fits rule budget others := by
  have same : (usable rule budget requests).Perm (usable rule budget others) :=
    reordered.filter _
  rcases fits with covered | single
  · exact .inl (by rwa [← (same.map rule.need).sum_eq])
  · exact .inr (by rwa [← same.length_eq])

/-- Where nothing is usable, every request is granted what it is granted alone: nothing. -/
theorem serve_unusable {budget left : K} (within : left ≤ budget)
    (unusable : ∀ request ∈ requests, ¬ Usable rule budget request) :
    serve rule left requests =
      requests.map fun request => (request, rule.grant budget request) := by
  induction requests with
  | nil => rfl
  | cons request rest ih =>
    have none := unusable_none (unusable request List.mem_cons_self) within
    have alone := unusable_none (unusable request List.mem_cons_self) (le_refl budget)
    simp only [serve, none.1, none.2, sub_zero, List.map_cons, alone.1]
    rw [ih fun later listed => unusable later (List.mem_cons_of_mem _ listed)]

variable [IsOrderedAddMonoid K]

/-- Usable requests that fit into what is left are all granted in full. -/
theorem serve_covered {budget left : K} (within : left ≤ budget)
    (covered : ((usable rule budget requests).map rule.need).sum ≤ left) :
    serve rule left requests =
      requests.map fun request => (request, rule.grant budget request) := by
  induction requests generalizing left with
  | nil => rfl
  | cons request rest ih =>
    by_cases wanted : Usable rule budget request
    · rw [usable, List.filter_cons_of_pos (by simpa using wanted), List.map_cons,
        List.sum_cons] at covered
      have others : 0 ≤ ((usable rule budget rest).map rule.need).sum :=
        List.sum_nonneg (by
          intro value listed
          obtain ⟨other, _, rfl⟩ := List.mem_map.mp listed
          exact need_nonneg other)
      have enough : rule.need request ≤ left := (le_add_of_nonneg_right others).trans covered
      have remains : ((usable rule budget rest).map rule.need).sum ≤
          left - rule.spent left request := by
        rw [rule.spent_covered enough]
        exact le_sub_iff_add_le'.mpr covered
      have less : left - rule.spent left request ≤ budget :=
        (sub_le_self left (rule.spent_nonneg left request)).trans within
      rw [serve, ih less remains, List.map_cons, rule.grant_covered enough,
        rule.grant_covered (enough.trans within)]
    · rw [usable, List.filter_cons_of_neg (by simpa using wanted)] at covered
      have none := unusable_none wanted within
      have alone := unusable_none wanted (le_refl budget)
      rw [serve, none.1, none.2, sub_zero, ih within covered, List.map_cons,
        alone.1]

/-- A single usable request is granted from the whole budget wherever it stands. -/
theorem serve_single {budget : K}
    (single : (usable rule budget requests).length ≤ 1) :
    serve rule budget requests =
      requests.map fun request => (request, rule.grant budget request) := by
  induction requests with
  | nil => rfl
  | cons request rest ih =>
    by_cases wanted : Usable rule budget request
    · rw [usable, List.filter_cons_of_pos (by simpa using wanted), List.length_cons] at single
      have unusable : ∀ other ∈ rest, ¬ Usable rule budget other := by
        intro other listed also
        have counted : other ∈ usable rule budget rest :=
          List.mem_filter.mpr ⟨listed, by simpa using also⟩
        have positive := List.length_pos_of_mem counted
        rw [usable] at positive
        omega
      rw [serve, List.map_cons,
        serve_unusable (sub_le_self budget (rule.spent_nonneg budget request)) unusable]
    · rw [usable, List.filter_cons_of_neg (by simpa using wanted)] at single
      have none := unusable_none wanted (le_refl budget)
      rw [serve, none.2, sub_zero, List.map_cons, ih single]

theorem serve_alone {budget : K} (fits : Fits rule budget requests) :
    serve rule budget requests =
      requests.map fun request => (request, rule.grant budget request) := by
  rcases fits with covered | single
  · exact serve_covered le_rfl covered
  · exact serve_single single

section Names

variable [DecidableEq ι] {name : α → ι}

theorem received_of_fits {budget : K} {requests others : List α}
    (fits : Fits rule budget requests) (reordered : requests.Perm others) (sought : ι) :
    received name (serve rule budget requests) sought =
      received name (serve rule budget others) sought := by
  rw [serve_alone fits, serve_alone (fits.perm reordered)]
  exact received_perm (reordered.map _) sought

theorem served_from (rule : Rule α K) (left : K) {requests : List α} {request : α}
    (listed : request ∈ requests) :
    ∃ part ≤ left, (request, rule.grant part request) ∈ serve rule left requests := by
  induction requests generalizing left with
  | nil => cases listed
  | cons head rest ih =>
    rcases List.mem_cons.mp listed with rfl | later
    · exact ⟨left, le_rfl, List.mem_cons_self⟩
    · obtain ⟨part, within, served⟩ :=
        ih (left - rule.spent left head) later
      exact ⟨part, within.trans (sub_le_self left (rule.spent_nonneg left head)),
        List.mem_cons_of_mem _ served⟩

/-- Requests that were all granted in full fit into what was left. -/
theorem covered_of_full {budget left : K} {requests : List α} (within : left ≤ budget)
    (nonneg : 0 ≤ left)
    (granted : ∀ entry ∈ serve rule left requests, Usable rule budget entry.1 →
      0 < rule.full entry.1 ∧ entry.2 = rule.full entry.1) :
    ((usable rule budget requests).map rule.need).sum ≤ left := by
  induction requests generalizing left with
  | nil => simpa [usable] using nonneg
  | cons request rest ih =>
    have later (entry : α × K)
        (listed : entry ∈ serve rule (left - rule.spent left request) rest) :=
      granted entry (List.mem_cons_of_mem _ listed)
    by_cases wanted : Usable rule budget request
    · obtain ⟨positive, whole⟩ := granted _ List.mem_cons_self wanted
      have enough : rule.need request ≤ left := by
        by_contra short
        exact absurd whole (rule.grant_short positive (not_le.mp short)).ne
      rw [rule.spent_covered enough] at later
      have rest := ih ((sub_le_self left (need_nonneg request)).trans within)
        (sub_nonneg.mpr enough) later
      rw [usable, List.filter_cons_of_pos (by simpa using wanted), List.map_cons, List.sum_cons]
      exact le_sub_iff_add_le'.mp rest
    · rw [(unusable_none wanted within).2, sub_zero] at later
      rw [usable, List.filter_cons_of_neg (by simpa using wanted)]
      exact ih within nonneg later

end Names

section Exchanges

variable [DecidableEq ι] {name : α → ι} {place : Type*} [DecidableEq place]
  {places : List place} {request : place → α} {budget : K}

/-- Exchanging the requests of two places reorders the requests. -/
theorem exchanged_perm (distinct : places.Nodup) {first second : place}
    (firstListed : first ∈ places) (secondListed : second ∈ places) :
    (places.map (request ∘ Equiv.swap first second)).Perm (places.map request) := by
  have moved : (places.map (Equiv.swap first second)).Perm places := by
    rw [List.perm_ext_iff_of_nodup (distinct.map (Equiv.swap first second).injective) distinct]
    have stays (spot : place) (inside : spot ∈ places) :
        Equiv.swap first second spot ∈ places := by
      rw [Equiv.swap_apply_def]
      split
      · exact secondListed
      · split
        · exact firstListed
        · exact inside
    intro spot
    constructor
    · intro inside
      obtain ⟨origin, originListed, rfl⟩ := List.mem_map.mp inside
      exact stays origin originListed
    · intro inside
      exact List.mem_map.mpr ⟨_, stays spot inside, Equiv.swap_apply_self first second spot⟩
  rw [← List.map_map]
  exact moved.map request

omit [IsOrderedAddMonoid K] in
/-- With two usable requests there is another one beside each. -/
theorem another_usable (distinct : places.Nodup)
    (many : ¬ (usable rule budget (places.map request)).length ≤ 1) (spot : place) :
    ∃ another ∈ places, another ≠ spot ∧ Usable rule budget (request another) := by
  by_contra only
  push Not at only
  refine many ?_
  rw [usable, List.filter_map, List.length_map]
  have same : ∀ other ∈
      places.filter ((fun wanted => decide (Usable rule budget wanted)) ∘ request),
      other = spot := by
    intro other inside
    obtain ⟨listed, wanted⟩ := List.mem_filter.mp inside
    by_contra differs
    exact only other listed differs (by simpa using wanted)
  have repeated := List.eq_replicate_of_mem same
  have once := distinct.filter ((fun wanted => decide (Usable rule budget wanted)) ∘ request)
  rw [repeated] at once
  exact List.nodup_replicate.mp once

variable (name) in
/-- Requests of different names that receive the same after every exchange of two places fit. -/
theorem fits_of_blind (distinct : places.Nodup)
    (named : (places.map fun spot => name (request spot)).Nodup)
    (blind : ∀ first ∈ places, ∀ second ∈ places, ∀ sought,
      received name (serve rule budget (places.map (request ∘ Equiv.swap first second))) sought =
        received name (serve rule budget (places.map request)) sought) :
    Fits rule budget (places.map request) := by
  cases places with
  | nil => exact .inr (by simp [usable])
  | cons head tail =>
    have namedRun (requests : List α) (reordered : requests.Perm ((head :: tail).map request)) :
        ((serve rule budget requests).map fun entry => name entry.1).Nodup := by
      rw [serve_names, (reordered.map name).nodup_iff, List.map_map]
      exact named
    -- Moved to the front, a request is granted from the whole budget; so it is everywhere.
    have alone (spot : place) (listed : spot ∈ head :: tail) :
        received name (serve rule budget ((head :: tail).map request)) (name (request spot)) =
          rule.grant budget (request spot) := by
      have first : (request spot, rule.grant budget (request spot)) ∈
          serve rule budget ((head :: tail).map (request ∘ Equiv.swap head spot)) := by
        simp [serve]
      rw [← blind head List.mem_cons_self spot listed]
      exact received_own first (namedRun _ (exchanged_perm distinct List.mem_cons_self listed))
    by_cases few : (usable rule budget ((head :: tail).map request)).length ≤ 1
    · exact .inr few
    -- Behind another usable request it is granted the same from less, so in full.
    have whole (spot : place) (listed : spot ∈ head :: tail)
        (wanted : Usable rule budget (request spot)) : rule.need (request spot) ≤ budget := by
      obtain ⟨another, otherListed, differs, usable⟩ := another_usable distinct few spot
      have moved : Equiv.swap head another spot ∈ tail := by
        have inside : Equiv.swap head another spot ∈ head :: tail := by
          rw [Equiv.swap_apply_def]
          split
          · exact otherListed
          · split
            · exact List.mem_cons_self
            · exact listed
        rcases List.mem_cons.mp inside with first | later
        · have back := congrArg (Equiv.swap head another) first
          rw [Equiv.swap_apply_self, Equiv.swap_apply_left] at back
          exact absurd back.symm differs
        · exact later
      have behind : request spot ∈ tail.map (request ∘ Equiv.swap head another) :=
        List.mem_map.mpr ⟨_, moved, by simp⟩
      obtain ⟨part, within, granted⟩ := served_from rule
        (budget - rule.spent budget (request another)) behind
      have less : part < budget :=
        within.trans_lt (sub_lt_self budget (rule.spent_some usable))
      have same : rule.grant part (request spot) = rule.grant budget (request spot) := by
        have served : (request spot, rule.grant part (request spot)) ∈
            serve rule budget ((head :: tail).map (request ∘ Equiv.swap head another)) := by
          rw [List.map_cons]
          refine List.mem_cons_of_mem _ ?_
          simpa using granted
        rw [← alone spot listed, ← blind head List.mem_cons_self another otherListed]
        exact (received_own served
          (namedRun _ (exchanged_perm distinct List.mem_cons_self otherListed))).symm
      by_contra short
      exact (rule.grant_cut wanted less (not_le.mp short)).ne same
    obtain ⟨some, someListed, _, someUsable⟩ := another_usable distinct few head
    refine .inl (covered_of_full le_rfl
      ((need_nonneg (request some)).trans (whole some someListed someUsable)) ?_)
    intro entry served wanted
    have listed : entry.1 ∈ (head :: tail).map request := by
      have inside := List.mem_map_of_mem (f := Prod.fst) served
      rwa [serve_requests] at inside
    obtain ⟨spot, spotListed, same⟩ := List.mem_map.mp listed
    have granted : received name _ (name entry.1) = entry.2 :=
      received_own served (namedRun _ (.refl _))
    rw [← same, alone spot spotListed] at granted
    rw [← same] at wanted ⊢
    have full := rule.grant_covered (whole spot spotListed wanted)
    exact ⟨full ▸ wanted, granted ▸ full⟩

end Exchanges

end TradingEngine.SharedBudgets
