import Mathlib.Data.List.Sort
import Mathlib.Data.Nat.Find
import Mathlib.Order.WithBot

/-!
# Step-up selection

Members have scores, and a bound is given for every number of members: the more are
selected together, the lower is the bound that each of them has to reach. The rank of
a list is the largest number of members that all reach the bound of that number. The
rule walks the members by descending score and keeps everything up to the last place
whose score reaches the bound of that place.

The walk finds the rank, and what it keeps are exactly the members that reach the
bound of the rank, ties included.
-/

namespace TradingEngine.StepUp

variable {ι β : Type*}

variable {marked : ι → Bool}

theorem unmarked_after {first : ι} {rest : List ι}
    (before : ∀ member ∈ rest, marked member → marked first) (mark : marked first = false) :
    ∀ member ∈ rest, ¬ marked member = true := by
  intro member listed marks
  exact absurd (before member listed marks) (by simp [mark])

/-- Where nothing marked follows anything unmarked, the marked members come first. -/
theorem filter_eq_take {members : List ι}
    (ordered : members.Pairwise fun earlier later => marked later → marked earlier) :
    members.filter marked = members.take (members.countP marked) := by
  induction members with
  | nil => rfl
  | cons first rest ih =>
    obtain ⟨before, within⟩ := List.pairwise_cons.mp ordered
    cases mark : marked first with
    | true =>
      rw [List.filter_cons_of_pos mark, List.countP_cons_of_pos mark, List.take_succ_cons,
        ih within]
    | false =>
      have unmarked := unmarked_after before mark
      rw [List.filter_cons_of_neg (by simp [mark]), List.countP_cons_of_neg (by simp [mark]),
        List.filter_eq_nil_iff.mpr unmarked, List.countP_eq_zero.mpr unmarked, List.take_zero]

/-- A place is marked exactly if it is among the first, as many as are marked. -/
theorem marked_iff {members : List ι}
    (ordered : members.Pairwise fun earlier later => marked later → marked earlier) {place : ℕ}
    (inside : place < members.length) :
    marked members[place] ↔ place < members.countP marked := by
  induction members generalizing place with
  | nil => simp at inside
  | cons first rest ih =>
    obtain ⟨before, within⟩ := List.pairwise_cons.mp ordered
    cases place with
    | zero =>
      cases mark : marked first with
      | true => simp [mark]
      | false =>
        simp [mark, List.countP_eq_zero.mpr (unmarked_after before mark)]
    | succ place =>
      have inRest : place < rest.length := by simpa using inside
      rw [List.getElem_cons_succ, ih within inRest]
      cases mark : marked first with
      | true => simp [mark]
      | false =>
        simp [mark, List.countP_eq_zero.mpr (unmarked_after before mark)]

section Rules

variable [LinearOrder β] (score : ι → β) (bound : ℕ → β) (members : List ι)

/-- How many members reach a bound. -/
def reaching (level : β) : ℕ := members.countP fun member => level ≤ score member

/-- The largest number of members that all reach the bound of that number. -/
def rank : ℕ :=
  Nat.findGreatest (fun number => number ≤ reaching score members (bound number)) members.length

/-- The places of a list whose score reaches the bound of the place. -/
def passed : List (ι × ℕ) :=
  members.zipIdx.filter fun indexed => bound (indexed.2 + 1) ≤ score indexed.1

variable {score bound members}

theorem rank_le_reaching : rank score bound members ≤ reaching score members
    (bound (rank score bound members)) :=
  Nat.findGreatest_spec (P := fun number => number ≤ reaching score members (bound number))
    (Nat.zero_le _) (Nat.zero_le _)

theorem le_rank {number : ℕ} (reached : number ≤ reaching score members (bound number)) :
    number ≤ rank score bound members :=
  Nat.le_findGreatest (le_trans reached List.countP_le_length) reached

theorem reaching_rank (descends : ∀ number, 0 < number → bound (number + 1) ≤ bound number)
    (some_ : 0 < rank score bound members) :
    reaching score members (bound (rank score bound members)) = rank score bound members := by
  apply le_antisymm _ rank_le_reaching
  by_contra more
  have next : rank score bound members + 1 ≤
      reaching score members (bound (rank score bound members + 1)) := by
    apply le_trans (Nat.succ_le_of_lt (Nat.lt_of_not_le more))
    apply List.countP_mono_left
    intro member _ reached
    simp only [decide_eq_true_eq] at reached ⊢
    exact le_trans (descends _ some_) reached
  have impossible := le_rank next
  omega

theorem reaching_perm {others : List ι} (same : others.Perm members) (level : β) :
    reaching score others level = reaching score members level :=
  same.countP_eq _

theorem rank_perm {others : List ι} (same : others.Perm members) :
    rank score bound others = rank score bound members := by
  simp only [rank, reaching_perm same, same.length_eq]

/-- Members in descending order of their scores. -/
abbrev Descending (score : ι → β) (members : List ι) : Prop :=
  members.Pairwise fun earlier later => score later ≤ score earlier

theorem Descending.marks (descending : Descending score members) (level : β) :
    members.Pairwise fun earlier later =>
      decide (level ≤ score later) = true → decide (level ≤ score earlier) = true := by
  apply descending.imp
  intro earlier later below reached
  simp only [decide_eq_true_eq] at reached ⊢
  exact le_trans reached below

theorem mem_passed (descending : Descending score members) {place : ℕ}
    (inside : place < members.length) :
    (members[place], place) ∈ passed score bound members ↔
      place + 1 ≤ reaching score members (bound (place + 1)) := by
  rw [passed, List.mem_filter, decide_eq_true_eq]
  have listed : (members[place], place) ∈ members.zipIdx := by
    rw [List.mem_zipIdx_iff_getElem?]
    exact List.getElem?_eq_getElem inside
  have marks := marked_iff (descending.marks (bound (place + 1))) inside
  rw [decide_eq_true_eq] at marks
  rw [and_iff_right listed]
  exact marks

theorem rank_passes (descending : Descending score members)
    (some_ : 0 < rank score bound members) :
    ∃ member, (member, rank score bound members - 1) ∈ passed score bound members := by
  have most : rank score bound members ≤ members.length := Nat.findGreatest_le _
  have inside : rank score bound members - 1 < members.length := by omega
  refine ⟨members[rank score bound members - 1], (mem_passed descending inside).mpr ?_⟩
  rw [Nat.sub_add_cancel some_]
  exact rank_le_reaching

/-- The last place that passes is the rank. -/
theorem getLast_passed (descending : Descending score members) :
    (passed score bound members).getLast?.elim 0 (fun last => last.2 + 1) =
      rank score bound members := by
  have inOrder : (passed score bound members).Pairwise fun earlier later =>
      earlier.2 < later.2 := by
    apply List.Pairwise.filter
    rw [List.pairwise_iff_getElem]
    intro first later inFirst inLater before
    simpa using before
  have counted : ∀ indexed ∈ passed score bound members,
      indexed.2 + 1 ≤ rank score bound members := by
    rintro ⟨member, place⟩ listed
    obtain ⟨inside, here⟩ := List.mem_zipIdx' (List.mem_of_mem_filter listed)
    rw [here] at listed
    exact le_rank ((mem_passed descending inside).mp listed)
  cases last : (passed score bound members).getLast? with
  | none =>
    rw [List.getLast?_eq_none_iff] at last
    by_contra positive
    obtain ⟨member, passes⟩ := rank_passes descending (Nat.pos_of_ne_zero (Ne.symm positive))
    rw [last] at passes
    cases passes
  | some final =>
    obtain ⟨front, split⟩ := List.getLast?_eq_some_iff.mp last
    have positive := counted final (by simp [split])
    apply le_antisymm positive
    have some_ : 0 < rank score bound members := by omega
    obtain ⟨member, passes⟩ := rank_passes descending some_
    rw [split] at passes inOrder
    obtain earlier | same := List.mem_append.mp passes
    · have before : rank score bound members - 1 < final.2 :=
        (List.pairwise_append.mp inOrder).2.2 _ earlier final (by simp)
      omega
    · obtain rfl := List.mem_singleton.mp same
      simp only at positive ⊢
      omega

theorem mem_take_rank (descending : Descending score members)
    (descends : ∀ number, 0 < number → bound (number + 1) ≤ bound number)
    (some_ : 0 < rank score bound members) {member : ι} :
    member ∈ members.take (rank score bound members) ↔
      member ∈ members ∧ bound (rank score bound members) ≤ score member := by
  have marks := filter_eq_take (descending.marks (bound (rank score bound members)))
  have number : reaching score members _ = _ := reaching_rank descends some_
  rw [reaching] at number
  rw [number] at marks
  rw [← marks, List.mem_filter, decide_eq_true_eq]

end Rules

end TradingEngine.StepUp
