import TradingEngine.Runs
import TradingEngine.SplitViews

/-!
# Splits that are not effective yet

Dividing the prices before a split by its ratio is undone by the split itself, so a split that
is not effective yet does not show in a view. Once every split is effective and known, the view
divides by what the reconstruction multiplied with, and the source is back. A label compares
an entry and an exit at the open or the close of their sessions, and a split takes effect
between the two instants exactly when its ex date is after the one session and not after the
other: the label multiplies by the splits that the two reconstructions differ in.
-/

namespace TradingEngine.SplitViews

open Nyse Tickets Runs
open AsOf (KnowledgePolicy)

variable {clock : NewYork} {policy : KnowledgePolicy}

section Scales

/-- The ratio of a trusted action that is chosen. -/
def weight (chosen : Action → Bool) (action : Action) : ℚ :=
  if chosen action ∧ action.splitOutcome = .trusted then action.newSharesPerOld.getD 1 else 1

/-- The product of the ratios of the trusted actions that are chosen. -/
def product (chosen : Action → Bool) (actions : List Action) : ℚ :=
  (actions.map (weight chosen)).prod

theorem ratio_ok {action : Action} {ratio : ℚ} (valid : action.ratio = .ok ratio) :
    action.newSharesPerOld = some ratio ∧ 0 < ratio := by
  unfold Action.ratio at valid
  split at valid
  · rename_i value stored
    split at valid
    · rename_i positive
      cases valid
      exact ⟨stored, positive⟩
    · cases valid
  · cases valid

theorem ratio_of_trusted {action : Action} (trusted : action.splitOutcome = .trusted) :
    ∃ ratio, action.ratio = .ok ratio ∧ action.newSharesPerOld = some ratio ∧ 0 < ratio := by
  unfold Action.splitOutcome at trusted
  split at trusted
  · cases trusted
  · cases valid : action.ratio with
    | error fault =>
      rw [valid] at trusted
      cases trusted
    | ok ratio => exact ⟨ratio, rfl, ratio_ok valid⟩

theorem weight_pos (chosen : Action → Bool) (action : Action) : 0 < weight chosen action := by
  unfold weight
  split
  · rename_i applies
    obtain ⟨ratio, -, stored, positive⟩ := ratio_of_trusted applies.2
    rw [stored]
    exact positive
  · exact one_pos

theorem product_pos (chosen : Action → Bool) (actions : List Action) :
    0 < product chosen actions := by
  apply List.prod_pos
  intro factor listed
  obtain ⟨action, -, rfl⟩ := List.mem_map.mp listed
  exact weight_pos chosen action

theorem product_mul {chosen one two : Action → Bool} {actions : List Action}
    (parts : ∀ action ∈ actions, weight chosen action = weight one action * weight two action) :
    product chosen actions = product one actions * product two actions := by
  unfold product
  rw [← List.prod_map_mul]
  exact congrArg List.prod (List.map_congr_left parts)

theorem product_congr {chosen other : Action → Bool} {actions : List Action}
    (same : ∀ action ∈ actions, chosen action = other action) :
    product chosen actions = product other actions := by
  unfold product weight
  apply congrArg List.prod
  apply List.map_congr_left
  intro action listed
  rw [same action listed]

theorem product_insert (chosen : Action → Bool) (before after : List Action) (added : Action) :
    product chosen (before ++ added :: after) =
      product chosen (before ++ after) * weight chosen added := by
  unfold product
  simp only [List.map_append, List.map_cons, List.prod_append, List.prod_cons]
  ring

theorem foldlM_product {σ ε : Type} {step : σ → Action → Except ε σ} {value : σ → ℚ}
    {chosen : Action → Bool} {actions : List Action} {start last : σ}
    (steps : ∀ action ∈ actions, ∀ scale next, step scale action = .ok next →
      value next = value scale * weight chosen action)
    (folded : actions.foldlM step start = .ok last) :
    value last = value start * product chosen actions := by
  induction actions generalizing start with
  | nil =>
    cases folded
    simp [product]
  | cons action rest ih =>
    rw [List.foldlM_cons] at folded
    obtain ⟨next, first, folded⟩ := bind_ok.mp folded
    rw [ih (fun other listed => steps other (List.mem_cons_of_mem _ listed))
      folded, steps action List.mem_cons_self start next first]
    simp only [product, List.map_cons, List.prod_cons]
    ring

/-- The first relevant action that is not trusted. -/
def firstQuarantined (relevant : Action → Bool) (actions : List Action) : Option Action :=
  actions.find? fun action => relevant action && decide (action.splitOutcome = .quarantined)

/-- A scale is a product, or names the first action that is not trusted. -/
theorem applySplits_eq (relevant : Action → Bool) (actions : List Action) :
    match firstQuarantined relevant actions with
    | some action => applySplits relevant actions =
        .error (.splitQuarantine ("quarantined_split:" ++ action.actionId))
    | none => ∃ ids, applySplits relevant actions = .ok (product relevant actions, ids) := by
  have folds (scale : ℚ × List String) :
      match firstQuarantined relevant actions with
      | some action => actions.foldlM (applySplit relevant) scale =
          .error (.splitQuarantine ("quarantined_split:" ++ action.actionId))
      | none => ∃ ids, actions.foldlM (applySplit relevant) scale =
          .ok (scale.1 * product relevant actions, ids) := by
    induction actions generalizing scale with
    | nil => exact ⟨scale.2, by simp [product]; rfl⟩
    | cons action rest ih =>
      have multiplied : product relevant (action :: rest) =
          weight relevant action * product relevant rest := by simp [product]
      by_cases applies : relevant action = true
      · cases status : action.splitOutcome with
        | quarantined =>
          have found : firstQuarantined relevant (action :: rest) = some action := by
            simp [firstQuarantined, applies, status]
          rw [found]
          simp [List.foldlM_cons, applySplit, applies, status, bind, Except.bind]
        | trustedNoop =>
          have same : firstQuarantined relevant (action :: rest) =
              firstQuarantined relevant rest := by
            simp [firstQuarantined, status]
          have one : weight relevant action = 1 := by simp [weight, status]
          rw [same, multiplied, one, one_mul]
          simpa [List.foldlM_cons, applySplit, applies, status, bind, Except.bind] using
            ih scale
        | trusted =>
          obtain ⟨ratio, valid, stored, -⟩ := ratio_of_trusted status
          have same : firstQuarantined relevant (action :: rest) =
              firstQuarantined relevant rest := by
            simp [firstQuarantined, status]
          have weighs : weight relevant action = ratio := by
            simp [weight, status, applies, stored]
          rw [same, multiplied, weighs, ← mul_assoc]
          simpa [List.foldlM_cons, applySplit, applies, status, valid, Except.map, bind,
            Except.bind] using ih (scale.1 * ratio, scale.2 ++ [action.actionId])
      · have same : firstQuarantined relevant (action :: rest) =
            firstQuarantined relevant rest := by
          simp [firstQuarantined, applies]
        have one : weight relevant action = 1 := by simp [weight, applies]
        rw [same, multiplied, one, one_mul]
        simpa [List.foldlM_cons, applySplit, applies, bind, Except.bind] using
          ih scale
  have folded := folds (1, [])
  unfold applySplits
  cases found : firstQuarantined relevant actions with
  | some action =>
    rw [found] at folded
    simp only at folded ⊢
    rw [folded]
    rfl
  | none =>
    rw [found] at folded
    obtain ⟨ids, folded⟩ := folded
    refine ⟨ids.insertionSort (· ≤ ·), ?_⟩
    rw [folded, one_mul]
    rfl

theorem applySplits_ok {relevant : Action → Bool} {actions : List Action} {factor : ℚ}
    {ids : List String} (applied : applySplits relevant actions = .ok (factor, ids)) :
    factor = product relevant actions := by
  have cases_ := applySplits_eq relevant actions
  split at cases_
  · rw [cases_] at applied
    cases applied
  · obtain ⟨others, equal⟩ := cases_
    rw [equal] at applied
    cases applied
    rfl

end Scales

section Agreement

variable {α β γ δ ε : Type}

/-- Two computations raise the same or return related values. -/
def Agree (related : α → β → Prop) : Except ε α → Except ε β → Prop
  | .ok one, .ok two => related one two
  | .error one, .error two => one = two
  | _, _ => False

theorem Agree.bind {related : α → β → Prop} {after : γ → δ → Prop} {one : Except ε α}
    {two : Except ε β} {next : α → Except ε γ} {again : β → Except ε δ}
    (agree : Agree related one two)
    (then_ : ∀ first second, related first second → Agree after (next first) (again second)) :
    Agree after (one >>= next) (two >>= again) := by
  cases one with
  | error fault =>
    cases two with
    | error other => exact agree
    | ok second => exact agree.elim
  | ok first =>
    cases two with
    | error other => exact agree.elim
    | ok second => exact then_ first second agree

theorem Agree.mapM {related : γ → δ → Prop} {compute : α → Except ε γ}
    {again : β → Except ε δ} {elements : List α} {others : List β}
    (each : List.Forall₂ (fun one two => Agree related (compute one) (again two))
      elements others) :
    Agree (List.Forall₂ related) (elements.mapM compute) (others.mapM again) := by
  induction each with
  | nil => exact List.Forall₂.nil
  | cons first _ ih =>
    rw [List.mapM_cons, List.mapM_cons]
    apply first.bind
    intro one two same
    apply ih.bind
    intro rest also alike
    exact List.Forall₂.cons same alike

/-- Related values may be known to be returned. -/
theorem Agree.strengthen {related stronger : α → β → Prop} {one : Except ε α} {two : Except ε β}
    (agree : Agree related one two)
    (implies : ∀ first second, one = .ok first → two = .ok second → related first second →
      stronger first second) : Agree stronger one two := by
  cases one with
  | error fault =>
    cases two with
    | error other => exact agree
    | ok second => exact agree.elim
  | ok first =>
    cases two with
    | error other => exact agree.elim
    | ok second => exact implies first second rfl rfl agree

/-- What related values have in common, computations that agree have in common. -/
theorem Agree.map_eq {related : α → β → Prop} {one : Except ε α} {two : Except ε β}
    {look : α → γ} {see : β → γ} (agree : Agree related one two)
    (same : ∀ first second, related first second → look first = see second) :
    one.map look = two.map see := by
  cases one with
  | error fault =>
    cases two with
    | error other => exact congrArg Except.error agree
    | ok second => exact agree.elim
  | ok first =>
    cases two with
    | error other => exact agree.elim
    | ok second => exact congrArg Except.ok (same first second agree)

end Agreement

section Added

theorem actionsOf_insert (securityId : String) (before after : List Action) (added : Action) :
    actionsOf securityId (before ++ added :: after) =
      if added.securityId = some securityId then
        actionsOf securityId before ++ added :: actionsOf securityId after
      else actionsOf securityId before ++ actionsOf securityId after := by
  unfold actionsOf
  rw [List.filter_append, List.filter_cons]
  by_cases same : added.securityId = some securityId
  · simp [same]
  · simp [same]

theorem actionsOf_append (securityId : String) (before after : List Action) :
    actionsOf securityId (before ++ after) =
      actionsOf securityId before ++ actionsOf securityId after := List.filter_append ..

variable {added : Action} (trusted : added.splitOutcome = .trusted)
include trusted

/-- A trusted action multiplies a scale by its weight. -/
theorem applySplits_insert (relevant : Action → Bool) (before after : List Action) :
    Agree (fun one two => one.1 = two.1 * weight relevant added)
      (applySplits relevant (before ++ added :: after))
      (applySplits relevant (before ++ after)) := by
  have same : firstQuarantined relevant (before ++ added :: after) =
      firstQuarantined relevant (before ++ after) := by
    simp [firstQuarantined, List.find?_append, trusted]
  have one := applySplits_eq relevant (before ++ added :: after)
  have two := applySplits_eq relevant (before ++ after)
  rw [same, product_insert] at one
  cases found : firstQuarantined relevant (before ++ after) with
  | some action =>
    rw [found] at one two
    rw [one, two]
    rfl
  | none =>
    rw [found] at one two
    obtain ⟨ids, one⟩ := one
    obtain ⟨others, two⟩ := two
    rw [one, two]
    rfl

theorem applySplits_actionsOf_insert (relevant : Action → Bool) (securityId : String)
    (before after : List Action) :
    Agree (fun one two => one.1 = two.1 *
        if added.securityId = some securityId then weight relevant added else 1)
      (applySplits relevant (actionsOf securityId (before ++ added :: after)))
      (applySplits relevant (actionsOf securityId (before ++ after))) := by
  rw [actionsOf_insert, actionsOf_append]
  by_cases same : added.securityId = some securityId
  · rw [if_pos same, if_pos same]
    exact applySplits_insert trusted relevant _ _
  · rw [if_neg same, if_neg same]
    cases applySplits relevant (actionsOf securityId before ++ actionsOf securityId after) with
    | error fault => rfl
    | ok scale => exact (mul_one _).symm

end Added

theorem reconstructBar_ok {actions : List Action} {source : Bar} {row : ReconstructedBar}
    (rebuilt : reconstructBar actions source = .ok row) :
    (∃ ids, reconstructionScale source.securityId source.session
        (actionsOf source.securityId actions) = .ok (row.reconstructionFactor, ids) ∧
      row.reconstructionActionIds = ids) ∧
      row.securityId = source.securityId ∧ row.session = source.session ∧
      row.availableAt = source.availableAt ∧ row.series = .reconstructedUnadjusted ∧
      (∀ field, row.prices field = source.prices field * row.reconstructionFactor) ∧
      row.volume = source.volume.map (· / row.reconstructionFactor) ∧
      source.valid = true := by
  unfold reconstructBar at rebuilt
  split at rebuilt
  · cases rebuilt
  · obtain ⟨⟨factor, ids⟩, scaled, rebuilt⟩ := bind_ok.mp rebuilt
    dsimp only at rebuilt
    split at rebuilt
    · cases rebuilt
    · rename_i valid
      split at rebuilt
      · cases rebuilt
      · cases rebuilt
        exact ⟨⟨ids, scaled, rfl⟩, rfl, rfl, rfl, rfl, fun _ => rfl, rfl, by simpa using valid⟩

theorem validate_reconstructed {actions : List Action} {source : Bar} {row : ReconstructedBar}
    (rebuilt : reconstructBar actions source = .ok row) :
    validateReconstructedBar row (actionsOf row.securityId actions) = .ok () := by
  obtain ⟨⟨ids, scaled, listed⟩, security, session, -, series, -⟩ := reconstructBar_ok rebuilt
  unfold validateReconstructedBar
  rw [security, session, scaled, series, listed]
  simp [bind, Except.bind]

/-- Divide a bar's prices by a ratio if a split comes after the bar. -/
def adjustedFor (added : Action) (ratio : ℚ) (bar : Bar) : Bar :=
  if added.securityId = some bar.securityId ∧ bar.session < added.exDate then
    { bar with prices := fun field => bar.prices field / ratio }
  else bar

section Hidden

variable {added : Action} {ratio : ℚ} {before after : List Action} {asOf : Int}

/-- Two reconstructions with the same prices, each on the scale of its own actions. -/
structure SameRow (actions others : List Action) (one two : ReconstructedBar) : Prop where
  priced : one.priced = two.priced
  available : one.availableAt = two.availableAt
  valid : validateReconstructedBar one (actionsOf one.securityId actions) = .ok ()
  valid' : validateReconstructedBar two (actionsOf two.securityId others) = .ok ()

/-- Dividing by the ratio of a split and rebuilding with the split gives the same prices. -/
theorem reconstructBar_adjustedFor (trusted : added.splitOutcome = .trusted)
    (valued : added.ratio = .ok ratio) (bar : Bar) :
    Agree (SameRow (before ++ added :: after) (before ++ after))
      (reconstructBar (before ++ added :: after) (adjustedFor added ratio bar))
      (reconstructBar (before ++ after) bar) := by
  obtain ⟨stored, positive⟩ := ratio_ok valued
  have kept : (adjustedFor added ratio bar).securityId = bar.securityId ∧
      (adjustedFor added ratio bar).session = bar.session ∧
      (adjustedFor added ratio bar).availableAt = bar.availableAt ∧
      (adjustedFor added ratio bar).series = bar.series ∧
      (adjustedFor added ratio bar).volume = bar.volume := by
    unfold adjustedFor
    split <;> simp
  obtain ⟨security, session, available, series, volume⟩ := kept
  have valid : (adjustedFor added ratio bar).valid = bar.valid := by
    unfold adjustedFor
    split
    · simp only [Bar.valid, div_pos_iff_of_pos_right positive]
    · rfl
  -- The division and the weight of the split cancel.
  have cancels (field : PriceField) : (adjustedFor added ratio bar).prices field *
      (if added.securityId = some bar.securityId then
        weight (fun action => action.securityId = some bar.securityId ∧
          bar.session < action.exDate) added else 1) = bar.prices field := by
    unfold adjustedFor weight
    by_cases same : added.securityId = some bar.securityId
    · by_cases later : bar.session < added.exDate
      · simp [same, later, trusted, stored, positive.ne']
      · simp [same, later]
    · simp [same]
  have scales := applySplits_actionsOf_insert trusted (fun action =>
    action.securityId = some bar.securityId ∧ bar.session < action.exDate)
    bar.securityId before after
  have rebuilt : Agree (fun one two => one.priced = two.priced ∧
      one.availableAt = two.availableAt)
      (reconstructBar (before ++ added :: after) (adjustedFor added ratio bar))
      (reconstructBar (before ++ after) bar) := by
    unfold reconstructBar
    rw [series, security, session, valid, volume]
    by_cases other : bar.series ≠ .sourceBackAdjusted
    · rw [if_pos other, if_pos other]
      rfl
    · rw [if_neg other, if_neg other]
      apply scales.bind
      rintro ⟨factor, ids⟩ ⟨before, others⟩ multiplied
      dsimp only at multiplied ⊢
      split
      · rfl
      · split
        · rfl
        · refine ⟨?_, available⟩
          simp only [Bar.priced, Prod.mk.injEq, true_and]
          funext field
          rw [multiplied, mul_left_comm, cancels, mul_comm]
  apply rebuilt.strengthen
  rintro one two oneRebuilt twoRebuilt ⟨priced, alike⟩
  exact ⟨priced, alike, validate_reconstructed oneRebuilt, validate_reconstructed twoRebuilt⟩

/-- A split that is not effective yet does not restate a bar. -/
theorem asofBar_insert (trusted : added.splitOutcome = .trusted)
    (future : asOf < splitEffectiveAt clock added) {one two : ReconstructedBar}
    (same : SameRow (before ++ added :: after) (before ++ after) one two) :
    Agree (fun first second => first.map (fun row : AsofBar => row.priced) =
        second.map fun row : AsofBar => row.priced)
      (asofBar clock policy (before ++ added :: after) asOf one)
      (asofBar clock policy (before ++ after) asOf two) := by
  obtain ⟨priced, available, valid, valid'⟩ := same
  simp only [Bar.priced, Prod.mk.injEq] at priced
  obtain ⟨security, session, prices⟩ := priced
  have scales := applySplits_actionsOf_insert trusted (restates clock policy asOf two.session)
    two.securityId before after
  have one_ : (if added.securityId = some two.securityId then
      weight (restates clock policy asOf two.session) added else 1) = 1 := by
    have unseen : restates clock policy asOf two.session added = false := by
      simp [restates, not_le.mpr future]
    simp [weight, unseen]
  rw [one_] at scales
  unfold asofBar
  dsimp only
  rw [valid, valid', available, security, session]
  by_cases late : asOf < two.availableAt
  · simp only [bind, Except.bind, if_pos late]
    rfl
  · simp only [bind, Except.bind, if_neg late]
    apply scales.bind
    rintro ⟨factor, ids⟩ ⟨before, others⟩ equal
    simp only [mul_one] at equal
    subst equal
    simp only [pure, Except.pure, Agree, Option.map_some, Bar.priced, prices]

/-- Every action has an identity and a key of its own. -/
structure Unambiguous (actions : List Action) : Prop where
  named : ∀ action ∈ actions, action.actionId ≠ ""
  identities : (actions.map Action.actionId).Nodup
  keys : (actions.map Action.naturalKey).Nodup

theorem checkUnique_cases (selected : List String)
    (naturalKeys : List (Option String × String × Int)) (actions : List Action) :
    (checkUnique selected naturalKeys actions = .ok () ∧ Unambiguous actions ∧
      ∀ action ∈ actions, action.actionId ∉ selected ∧ action.naturalKey ∉ naturalKeys) ∨
    (checkUnique selected naturalKeys actions =
        .error (.splitQuarantine "ambiguous_split_action_versions") ∧
      ¬(Unambiguous actions ∧
        ∀ action ∈ actions, action.actionId ∉ selected ∧ action.naturalKey ∉ naturalKeys)) := by
  induction actions generalizing selected naturalKeys with
  | nil => exact .inl ⟨rfl, ⟨by simp, by simp, by simp⟩, by simp⟩
  | cons action rest ih =>
    unfold checkUnique
    by_cases refused : action.actionId = "" ∨ action.actionId ∈ selected ∨
        action.naturalKey ∈ naturalKeys
    · right
      rw [if_pos refused]
      refine ⟨rfl, ?_⟩
      rintro ⟨unambiguous, apart⟩
      have fresh := apart action List.mem_cons_self
      rcases refused with empty | taken | taken
      · exact unambiguous.named action List.mem_cons_self empty
      · exact fresh.1 taken
      · exact fresh.2 taken
    · rw [if_neg refused]
      push Not at refused
      rcases ih (action.actionId :: selected) (action.naturalKey :: naturalKeys)
        with ⟨passed, ⟨named, identities, keys⟩, apart⟩ | ⟨failed, none_⟩
      · left
        refine ⟨passed, ⟨?_, ?_, ?_⟩, ?_⟩
        · exact List.forall_mem_cons.mpr ⟨refused.1, named⟩
        · apply List.nodup_cons.mpr ⟨_, identities⟩
          intro listed
          obtain ⟨other, member, same⟩ := List.mem_map.mp listed
          exact (apart other member).1 (same ▸ List.mem_cons_self)
        · apply List.nodup_cons.mpr ⟨_, keys⟩
          intro listed
          obtain ⟨other, member, same⟩ := List.mem_map.mp listed
          exact (apart other member).2 (same ▸ List.mem_cons_self)
        · intro other member
          rcases List.mem_cons.mp member with rfl | member
          · exact refused.2
          exact ⟨fun taken => (apart other member).1 (List.mem_cons_of_mem _ taken),
            fun taken => (apart other member).2 (List.mem_cons_of_mem _ taken)⟩
      · right
        refine ⟨failed, ?_⟩
        rintro ⟨⟨named, identities, keys⟩, apart⟩
        obtain ⟨freshId, identities⟩ := List.nodup_cons.mp identities
        obtain ⟨freshKey, keys⟩ := List.nodup_cons.mp keys
        apply none_
        refine ⟨⟨fun other member => named other (List.mem_cons_of_mem _ member), identities,
          keys⟩, ?_⟩
        intro other member
        have apartOther := apart other (List.mem_cons_of_mem _ member)
        constructor
        · intro taken
          rcases List.mem_cons.mp taken with same | taken
          · exact freshId (same ▸ List.mem_map_of_mem member)
          · exact apartOther.1 taken
        · intro taken
          rcases List.mem_cons.mp taken with same | taken
          · exact freshKey (same ▸ List.mem_map_of_mem member)
          · exact apartOther.2 taken

theorem uniqueActions_cases (actions : List Action) :
    (uniqueActions actions = .ok actions ∧ Unambiguous actions) ∨
    (uniqueActions actions = .error (.splitQuarantine "ambiguous_split_action_versions") ∧
      ¬Unambiguous actions) := by
  unfold uniqueActions
  rcases checkUnique_cases [] [] actions with ⟨passed, unambiguous, -⟩ | ⟨failed, ambiguous⟩
  · left
    rw [passed]
    exact ⟨rfl, unambiguous⟩
  · right
    rw [failed]
    refine ⟨rfl, fun unambiguous => ambiguous ⟨unambiguous, ?_⟩⟩
    simp

/-- An action that no other one of a list shares its identity or its key with. -/
def Fresh (added : Action) (actions : List Action) : Prop :=
  added.actionId ≠ "" ∧ ∀ other ∈ actions, other.actionId ≠ added.actionId ∧
    other.naturalKey ≠ added.naturalKey

theorem unambiguous_insert (fresh : Fresh added (before ++ after)) :
    Unambiguous (before ++ added :: after) ↔ Unambiguous (before ++ after) := by
  have order : (before ++ added :: after).Perm (added :: (before ++ after)) := List.perm_middle
  constructor
  · rintro ⟨named, identities, keys⟩
    have identities := (order.map Action.actionId).nodup_iff.mp identities
    have keys := (order.map Action.naturalKey).nodup_iff.mp keys
    refine ⟨?_, (List.nodup_cons.mp identities).2, (List.nodup_cons.mp keys).2⟩
    intro action listed
    exact named action (order.mem_iff.mpr (List.mem_cons_of_mem _ listed))
  · rintro ⟨named, identities, keys⟩
    refine ⟨?_, ?_, ?_⟩
    · intro action listed
      rcases List.mem_cons.mp (order.mem_iff.mp listed) with rfl | other
      · exact fresh.1
      · exact named action other
    · apply (order.map Action.actionId).nodup_iff.mpr
      apply List.nodup_cons.mpr ⟨_, identities⟩
      intro listed
      obtain ⟨other, member, same⟩ := List.mem_map.mp listed
      exact (fresh.2 other member).1 same
    · apply (order.map Action.naturalKey).nodup_iff.mpr
      apply List.nodup_cons.mpr ⟨_, keys⟩
      intro listed
      obtain ⟨other, member, same⟩ := List.mem_map.mp listed
      exact (fresh.2 other member).2 same

theorem uniqueActions_insert (fresh : Fresh added (before ++ after)) :
    Agree (fun one two => one = before ++ added :: after ∧ two = before ++ after)
      (uniqueActions (before ++ added :: after)) (uniqueActions (before ++ after)) := by
  rcases uniqueActions_cases (before ++ added :: after) with ⟨one, fine⟩ | ⟨one, ambiguous⟩
  · rcases uniqueActions_cases (before ++ after) with ⟨two, -⟩ | ⟨-, ambiguous⟩
    · rw [one, two]
      exact ⟨rfl, rfl⟩
    · exact absurd ((unambiguous_insert fresh).mp fine) ambiguous
  · rcases uniqueActions_cases (before ++ after) with ⟨-, fine⟩ | ⟨two, -⟩
    · exact absurd ((unambiguous_insert fresh).mpr fine) ambiguous
    · rw [one, two]
      rfl

theorem reduceOption_map_congr {α β γ : Type} {rows : List (Option α)} {others : List (Option β)}
    {look : α → γ} {see : β → γ}
    (same : List.Forall₂ (fun one two => one.map look = two.map see) rows others) :
    rows.reduceOption.map look = others.reduceOption.map see := by
  induction same with
  | nil => rfl
  | @cons one two rows others first _ ih =>
    cases one with
    | none =>
      cases two with
      | none => simpa using ih
      | some second => cases first
    | some value =>
      cases two with
      | none => cases first
      | some second =>
        simp only [List.reduceOption_cons_of_some, List.map_cons]
        rw [ih, Option.some.inj first]

/-- A split that is not effective yet, and the adjustment for it, do not show. -/
theorem asofView_insert (trusted : added.splitOutcome = .trusted) (valued : added.ratio = .ok ratio)
    (fresh : Fresh added (before ++ after)) (future : asOf < splitEffectiveAt clock added)
    (bars : List Bar) :
    Agree (fun rows others : List AsofBar =>
        (rows.map fun row => row.priced) = others.map fun row => row.priced)
      (asofView clock policy (bars.map (adjustedFor added ratio)) (before ++ added :: after) asOf)
      (asofView clock policy bars (before ++ after) asOf) := by
  have rebuilt : Agree (List.Forall₂ (SameRow (before ++ added :: after) (before ++ after)))
      (reconstructUnadjustedBars (bars.map (adjustedFor added ratio)) (before ++ added :: after))
      (reconstructUnadjustedBars bars (before ++ after)) := by
    apply (uniqueActions_insert fresh).bind
    rintro _ _ ⟨rfl, rfl⟩
    apply Agree.mapM
    rw [List.forall₂_map_left_iff]
    exact List.forall₂_same.mpr fun bar _ => reconstructBar_adjustedFor trusted valued bar
  apply rebuilt.bind
  intro rows others same
  apply (uniqueActions_insert fresh).bind
  rintro _ _ ⟨rfl, rfl⟩
  have each : List.Forall₂ (fun one two =>
      Agree (fun first second : Option AsofBar => first.map (fun row => row.priced) =
          second.map fun row => row.priced)
        (asofBar clock policy (before ++ added :: after) asOf one)
        (asofBar clock policy (before ++ after) asOf two)) rows others :=
    same.imp fun one two alike => asofBar_insert trusted future alike
  apply (Agree.mapM each).bind
  intro one two alike
  exact reduceOption_map_congr alike

end Hidden

section Settled

variable {actions : List Action} {asOf : Int}

/-- Resolved splits with identities and keys of their own. -/
structure TrustedSplits (actions : List Action) : Prop where
  unambiguous : Unambiguous actions
  resolved : ∀ action ∈ actions, action.splitOutcome ≠ .quarantined

theorem TrustedSplits.unique (trusted : TrustedSplits actions) :
    uniqueActions actions = .ok actions := by
  rcases uniqueActions_cases actions with ⟨unique, -⟩ | ⟨-, ambiguous⟩
  · exact unique
  · exact absurd trusted.unambiguous ambiguous

theorem TrustedSplits.scale (trusted : TrustedSplits actions) (securityId : String)
    (relevant : Action → Bool) : ∃ ids, applySplits relevant (actionsOf securityId actions) =
      .ok (product relevant (actionsOf securityId actions), ids) := by
  have none_ : firstQuarantined relevant (actionsOf securityId actions) = none := by
    apply List.find?_eq_none.mpr
    intro action listed
    simp [trusted.resolved action (List.mem_of_mem_filter listed)]
  have cases_ := applySplits_eq relevant (actionsOf securityId actions)
  rw [none_] at cases_
  exact cases_

/-- A bar that a vendor may send. -/
structure SourceBar (bar : Bar) : Prop where
  series : bar.series = .sourceBackAdjusted
  valid : bar.valid = true
  volume : ∀ volume ∈ bar.volume, 0 ≤ volume

theorem SourceBar.reconstructs {bar : Bar} (source : SourceBar bar)
    (trusted : TrustedSplits actions) :
    ∃ row, reconstructBar actions bar = .ok row ∧
      row.reconstructionFactor = product (fun action =>
        action.securityId = some bar.securityId ∧ bar.session < action.exDate)
          (actionsOf bar.securityId actions) := by
  obtain ⟨ids, scaled⟩ := trusted.scale bar.securityId fun action =>
    action.securityId = some bar.securityId ∧ bar.session < action.exDate
  have positive : (bar.volume.any (· < 0)) = false := by
    cases stored : bar.volume with
    | none => rfl
    | some volume => simpa using source.volume volume stored
  unfold reconstructBar reconstructionScale
  simp only [source.series, source.valid, scaled, positive, bind, Except.bind, ne_eq,
    not_true_eq_false, if_false, Bool.not_true, Bool.false_eq_true]
  exact ⟨_, rfl, rfl⟩

/-- What a view says of a session when no scale is in the way. -/
def Bar.quoted (bar : Bar) : String × Int × (PriceField → ℚ) × Option ℚ :=
  (bar.securityId, bar.session, bar.prices, bar.volume)

/-- Once all splits are effective and known, a bar is restated to what it was. -/
theorem asofBar_settled {bar : Bar} {row : ReconstructedBar} (trusted : TrustedSplits actions)
    (settled : ∀ action ∈ actions, splitEffectiveAt clock action ≤ asOf ∧
      splitKnownAt clock policy action ≤ asOf)
    (rebuilt : reconstructBar actions bar = .ok row) :
    ∃ view, asofBar clock policy actions asOf row = .ok view ∧
      view.map (fun row : AsofBar => row.quoted) =
        if bar.availableAt ≤ asOf then some bar.quoted else none := by
  have valid := validate_reconstructed rebuilt
  obtain ⟨⟨ids, scaled, -⟩, security, session, available, -, prices, volume, -⟩ :=
    reconstructBar_ok rebuilt
  have factor := applySplits_ok scaled
  obtain ⟨others, restated⟩ := trusted.scale bar.securityId
    (restates clock policy asOf bar.session)
  have same : product (restates clock policy asOf bar.session)
      (actionsOf bar.securityId actions) = row.reconstructionFactor := by
    rw [factor]
    apply product_congr
    intro action listed
    obtain ⟨member, ofSecurity⟩ := List.mem_filter.mp listed
    obtain ⟨effective, known⟩ := settled action member
    simp [restates, effective, known, of_decide_eq_true ofSecurity]
  have positive : 0 < row.reconstructionFactor := by
    rw [factor]
    exact product_pos _ _
  rw [security] at valid
  unfold asofBar
  simp only [valid, security, session, available, restated, same, bind, Except.bind, pure,
    Except.pure]
  by_cases visible : bar.availableAt ≤ asOf
  · rw [if_neg (not_lt.mpr visible), if_pos visible]
    refine ⟨_, rfl, ?_⟩
    simp only [Option.map_some, Bar.quoted, Option.some.injEq, Prod.mk.injEq, true_and]
    constructor
    · funext field
      rw [prices, mul_div_cancel_right₀ _ positive.ne']
    · rw [volume, Option.map_map]
      cases bar.volume with
      | none => rfl
      | some value => exact congrArg some (div_mul_cancel₀ value positive.ne')
  · rw [if_pos (not_le.mp visible), if_neg visible]
    exact ⟨none, rfl, rfl⟩

/-- The view is the source, as far as it is available. -/
theorem asofView_settled {bars : List Bar} (sources : ∀ bar ∈ bars, SourceBar bar)
    (trusted : TrustedSplits actions)
    (settled : ∀ action ∈ actions, splitEffectiveAt clock action ≤ asOf ∧
      splitKnownAt clock policy action ≤ asOf) :
    ∃ rows, asofView clock policy bars actions asOf = .ok rows ∧
      (rows.map fun row => row.quoted) =
        (bars.filter fun bar => bar.availableAt ≤ asOf).map Bar.quoted := by
  have rebuilds : List.Forall₂ (fun bar other => ∃ row, reconstructBar actions other = .ok row ∧
      reconstructBar actions bar = .ok row) bars bars := by
    apply List.forall₂_same.mpr
    intro bar listed
    obtain ⟨row, rebuilt, -⟩ := (sources bar listed).reconstructs trusted
    exact ⟨row, rebuilt, rebuilt⟩
  obtain ⟨rebuilt, reconstructed, all⟩ := mapM_of_forall₂ rebuilds
  have restates : List.Forall₂ (fun bar row =>
      ∃ view, asofBar clock policy actions asOf row = .ok view ∧
        view.map (fun row : AsofBar => row.quoted) =
          if bar.availableAt ≤ asOf then some bar.quoted else none) bars rebuilt :=
    all.imp fun bar row rebuilt => asofBar_settled trusted settled rebuilt
  obtain ⟨views, viewed, each⟩ := mapM_of_forall₂ restates
  have rows : asofView clock policy bars actions asOf = .ok views.reduceOption := by
    simp only [asofView, reconstructUnadjustedBars, asofSplitAdjustedBars, trusted.unique, bind,
      Except.bind, reconstructed, viewed]
    rfl
  refine ⟨views.reduceOption, rows, ?_⟩
  clear rows viewed all restates reconstructed rebuilds sources
  induction each with
  | nil => rfl
  | @cons bar view bars views first _ ih =>
    rw [List.filter_cons]
    by_cases visible : bar.availableAt ≤ asOf
    · rw [if_pos visible] at first
      obtain ⟨row, rfl, same⟩ := Option.map_eq_some_iff.mp first
      rw [if_pos (decide_eq_true visible), List.reduceOption_cons_of_some, List.map_cons,
        List.map_cons, ih, same]
    · rw [if_neg visible, Option.map_eq_none_iff] at first
      subst first
      rw [if_neg (by simpa using visible), List.reduceOption_cons_of_none, ih]

end Settled

section Labels

variable {arguments : LabelArguments} {actions : List Action} {value : ℚ}

/-- What a point has passed whose price a label uses. -/
theorem labelPrice_ok {name securityId : String} {visible instant : Int}
    {point : LabelPricePoint} {value : ℚ}
    (used : labelPrice clock name securityId visible actions point instant = .ok value) :
    value = point.price ∧ point.session = clock.date instant ∧ openTime ≤ clock.time instant ∧
      point.reconstructionFactor = product (fun action =>
        action.securityId = some securityId ∧ clock.date instant < action.exDate) actions := by
  unfold labelPrice at used
  split at used
  · cases used
  rename_i placed
  push Not at placed
  split at used
  · cases used
  rename_i expected
  obtain ⟨scale, scaled, used⟩ := bind_ok.mp used
  split at used
  · cases used
  rename_i same
  split at used
  · cases used
  split at used
  · cases used
  cases used
  refine ⟨rfl, placed.2, ?_, ?_⟩
  · unfold expectedField at expected
    split at expected
    · rename_i opens
      exact opens.ge
    · split at expected
      · rename_i closes
        rw [closes]
        unfold sessionClose openTime hour minute
        split <;> omega
      · exact absurd (of_not_not expected) (by nofun)
  · rw [of_not_not same] at scaled
    rw [← placed.2]
    exact applySplits_ok scaled

/-- A split that takes effect between two instants of a label. -/
def between (clock : NewYork) (arguments : LabelArguments) (action : Action) : Bool :=
  action.securityId = some arguments.securityId ∧
    arguments.entryAt < splitEffectiveAt clock action ∧
    splitEffectiveAt clock action ≤ arguments.exitAt

theorem applyLabelSplit_ok {factor next : ℚ} {action : Action}
    (applied : applyLabelSplit clock policy arguments factor action = .ok next) :
    next = factor * weight (between clock arguments) action := by
  unfold applyLabelSplit at applied
  split at applied
  · rename_i other
    cases applied
    simp [weight, between, other]
  rename_i same
  split at applied
  · rename_i outside
    cases applied
    have apart : between clock arguments action = false := by
      unfold between
      apply decide_eq_false
      exact fun inside => outside inside.2
    simp [weight, apart]
  rename_i inside
  split at applied
  · cases applied
  split at applied
  · cases applied
  rename_i resolved
  have trusted : action.splitOutcome = .trusted := of_not_not resolved
  obtain ⟨ratio, valid, stored, -⟩ := ratio_of_trusted trusted
  rw [valid] at applied
  cases applied
  have chosen : between clock arguments action = true := by
    unfold between
    apply decide_eq_true
    exact ⟨of_not_not same, of_not_not inside⟩
  simp [weight, chosen, trusted, stored]

/-- A split takes effect between two instants of trading when its ex date is after the date of
the first and not after the date of the second. -/
theorem between_iff {entry exit_ day : Int} (entered : openTime ≤ clock.time entry)
    (left : openTime ≤ clock.time exit_) :
    (entry < clock.opened day ∧ clock.opened day ≤ exit_) ↔
      clock.date entry < day ∧ day ≤ clock.date exit_ := by
  have after : entry < clock.opened day ↔ clock.date entry < day := by
    rw [lt_opened_iff]
    omega
  have before : clock.opened day ≤ exit_ ↔ day ≤ clock.date exit_ := by
    rw [← not_lt, lt_opened_iff]
    omega
  rw [after, before]

/-- A later instant of trading is not on an earlier date. -/
theorem date_mono {entry exit_ : Int} (entered : openTime ≤ clock.time entry)
    (ordered : entry < exit_) : clock.date entry ≤ clock.date exit_ := by
  by_contra backwards
  have early : exit_ < clock.opened (clock.date entry) :=
    lt_opened_iff.mpr (.inl (not_le.mp backwards))
  have late : ¬entry < clock.opened (clock.date entry) := by
    rw [lt_opened_iff]
    omega
  omega

theorem cancel_scales {entry left scale factor entryMultiplier exitMultiplier : ℚ}
    (nonzero : factor * scale ≠ 0) :
    left * scale * factor * exitMultiplier / (entry * (factor * scale) * entryMultiplier) =
      left * exitMultiplier / (entry * entryMultiplier) := by
  rw [← mul_div_mul_right (left * exitMultiplier) (entry * entryMultiplier) nonzero]
  congr 1
  · ring
  · ring

/-- A label is the ratio of the source's own prices, less the costs. -/
theorem label_eq_ratio {entryBar exitBar : Bar} {entryRow exitRow : ReconstructedBar}
    {entryActions exitActions : List Action}
    (entryRebuilt : reconstructBar entryActions entryBar = .ok entryRow)
    (exitRebuilt : reconstructBar exitActions exitBar = .ok exitRow)
    (entryPoint : labelPricePoint entryRow arguments.entryPoint.priceField =
      .ok arguments.entryPoint)
    (exitPoint : labelPricePoint exitRow arguments.exitPoint.priceField =
      .ok arguments.exitPoint)
    (labelled : labelSplitNormalizedReturn clock policy arguments actions = .ok value) :
    value = exitBar.prices arguments.exitPoint.priceField *
        (1 - arguments.exitCostBps / 10000) /
      (entryBar.prices arguments.entryPoint.priceField *
        (1 + arguments.entryCostBps / 10000)) - 1 := by
  have pointed {row : ReconstructedBar} {field : PriceField} {point : LabelPricePoint}
      (made : labelPricePoint row field = .ok point) :
      point.price = row.prices point.priceField ∧
        point.reconstructionFactor = row.reconstructionFactor := by
    unfold labelPricePoint at made
    split at made
    · cases made
    · cases made
      exact ⟨rfl, rfl⟩
  obtain ⟨entryPrice, entryFactor⟩ := pointed entryPoint
  obtain ⟨exitPrice, exitFactor⟩ := pointed exitPoint
  obtain ⟨-, -, -, -, -, entryPrices, -⟩ := reconstructBar_ok entryRebuilt
  obtain ⟨-, -, -, -, -, exitPrices, -⟩ := reconstructBar_ok exitRebuilt
  unfold labelSplitNormalizedReturn at labelled
  split at labelled
  · cases labelled
  rename_i clocked
  obtain ⟨unique, same, labelled⟩ := bind_ok.mp labelled
  rcases uniqueActions_cases actions with ⟨fine, -⟩ | ⟨ambiguous, -⟩
  case inr =>
    rw [ambiguous] at same
    cases same
  rw [fine] at same
  cases same
  obtain ⟨entryRaw, entered, labelled⟩ := bind_ok.mp labelled
  obtain ⟨exitRaw, left, labelled⟩ := bind_ok.mp labelled
  obtain ⟨factor, folded, labelled⟩ := bind_ok.mp labelled
  dsimp only at labelled
  split at labelled
  · cases labelled
  cases labelled
  obtain ⟨rfl, entrySession, entryTime, entryScale⟩ := labelPrice_ok entered
  obtain ⟨rfl, exitSession, exitTime, exitScale⟩ := labelPrice_ok left
  have multiplied : factor = 1 * product (between clock arguments) actions :=
    @foldlM_product ℚ Fault _ id _ _ _ _ (fun _ _ _ _ applied => applyLabelSplit_ok applied) folded
  -- The two scales differ by the splits between the instants.
  have parts : product (fun action => action.securityId = some arguments.securityId ∧
      clock.date arguments.entryAt < action.exDate) actions =
        product (between clock arguments) actions *
          product (fun action => action.securityId = some arguments.securityId ∧
            clock.date arguments.exitAt < action.exDate) actions := by
    apply product_mul
    intro action _
    have ordered := date_mono entryTime (of_not_not clocked).1
    have inside : arguments.entryAt < clock.opened action.exDate ∧
        clock.opened action.exDate ≤ arguments.exitAt ↔
          clock.date arguments.entryAt < action.exDate ∧
            action.exDate ≤ clock.date arguments.exitAt := between_iff entryTime exitTime
    simp only [weight, between, splitEffectiveAt, inside]
    by_cases same : action.securityId = some arguments.securityId
    · by_cases later : clock.date arguments.exitAt < action.exDate
      · simp [same, later, ordered.trans_lt later, not_le.mpr later]
      · simp [same, later, not_lt.mp later]
    · simp [same]
  rw [← entryScale, ← exitScale, entryFactor, exitFactor] at parts
  have positive : 0 < exitRow.reconstructionFactor := by
    rw [← exitFactor, exitScale]
    exact product_pos _ _
  have factorPos : 0 < product (between clock arguments) actions := product_pos _ _
  rw [entryPrice, exitPrice, entryPrices, exitPrices, multiplied, parts, one_mul]
  have cancelled : product (between clock arguments) actions * exitRow.reconstructionFactor ≠ 0 :=
    (mul_pos factorPos positive).ne'
  rw [cancel_scales cancelled]

end Labels

/-- A split that is not effective yet, with the adjustment for it, leaves the prices of a view
as they were. Once all splits are effective and known, the view is the source. A label is the
ratio of the source's own prices, less the costs. -/
theorem splitViews_sound (clock : NewYork) (policy : KnowledgePolicy) :
    (∀ (bars : List Bar) (before after : List Action) (added : Action) (ratio : ℚ) (asOf : Int),
      added.splitOutcome = .trusted → added.ratio = .ok ratio → Fresh added (before ++ after) →
      asOf < splitEffectiveAt clock added →
      (asofView clock policy (bars.map (adjustedFor added ratio)) (before ++ added :: after)
          asOf).map (fun rows => rows.map fun row => row.priced) =
        (asofView clock policy bars (before ++ after) asOf).map
          fun rows => rows.map fun row => row.priced) ∧
    (∀ (bars : List Bar) (actions : List Action) (asOf : Int), (∀ bar ∈ bars, SourceBar bar) →
      TrustedSplits actions →
      (∀ action ∈ actions, splitEffectiveAt clock action ≤ asOf ∧
        splitKnownAt clock policy action ≤ asOf) →
      ∃ rows, asofView clock policy bars actions asOf = .ok rows ∧
        (rows.map fun row => row.quoted) =
          (bars.filter fun bar => bar.availableAt ≤ asOf).map Bar.quoted) ∧
    (∀ (arguments : LabelArguments) (actions entryActions exitActions : List Action)
      (entryBar exitBar : Bar) (entryRow exitRow : ReconstructedBar) (value : ℚ),
      reconstructBar entryActions entryBar = .ok entryRow →
      reconstructBar exitActions exitBar = .ok exitRow →
      labelPricePoint entryRow arguments.entryPoint.priceField = .ok arguments.entryPoint →
      labelPricePoint exitRow arguments.exitPoint.priceField = .ok arguments.exitPoint →
      labelSplitNormalizedReturn clock policy arguments actions = .ok value →
      value = exitBar.prices arguments.exitPoint.priceField *
          (1 - arguments.exitCostBps / 10000) /
        (entryBar.prices arguments.entryPoint.priceField *
          (1 + arguments.entryCostBps / 10000)) - 1) := by
  refine ⟨?_, ?_, ?_⟩
  · intro bars before after added ratio asOf trusted valued fresh future
    exact (asofView_insert trusted valued fresh future bars).map_eq fun _ _ same => same
  · intro bars actions asOf sources trusted settled
    exact asofView_settled sources trusted settled
  · intro arguments actions entryActions exitActions entryBar exitBar entryRow exitRow value
      entryRebuilt exitRebuilt entryPoint exitPoint labelled
    exact label_eq_ratio entryRebuilt exitRebuilt entryPoint exitPoint labelled

/-- The first session after the split is the seventh of July. -/
def julySplit : Action where
  actionId := "FIX:2026-07-07"
  securityId := some "fixture"
  kind := "split"
  exDate := ordinal 2026 7 7
  stableMapping := true
  outcome := "applied"
  newSharesPerOld := some 2

/-- Back-adjusted, the price stays where it was. -/
def julyBar (day : Int) : Bar where
  securityId := "fixture"
  session := day
  availableAt := 0
  series := .sourceBackAdjusted
  prices := fun _ => 50
  volume := some 200

/-- Rebuilt, the price before the split is twice that. -/
def julyRow (day : Int) (factor : ℚ) (ids : List String) : ReconstructedBar :=
  { julyBar day with
    series := .reconstructedUnadjusted
    prices := fun _ => 50 * factor
    volume := some (200 / factor)
    reconstructionFactor := factor
    reconstructionActionIds := ids }

/-- From the open before the split to the close after it. -/
def julyLabel : LabelArguments where
  securityId := "fixture"
  entryPoint := ⟨"fixture", ordinal 2026 7 6, 0, .open_, 100, 2, ["FIX:2026-07-07"]⟩
  exitPoint := ⟨"fixture", ordinal 2026 7 7, 0, .close, 50, 1, []⟩
  entryAt := summerClocks.opened (ordinal 2026 7 6)
  exitAt := summerClocks.opened (ordinal 2026 7 7) + 6 * hour + 30 * minute
  visibleAt := summerClocks.opened (ordinal 2026 7 8)
  entryCostBps := 10
  exitCostBps := 10

theorem julyBar_source (day : Int) : SourceBar (julyBar day) := by
  refine ⟨rfl, by simp [Bar.valid, julyBar], ?_⟩
  intro volume stored
  cases stored
  norm_num

theorem julySplit_trusted : TrustedSplits [julySplit] :=
  ⟨⟨by decide, by decide, by decide⟩, by decide +kernel⟩

theorem julySplit_sound :
    (asofView summerClocks .primary ([julyBar (ordinal 2026 7 6)].map (adjustedFor julySplit 2))
        ([] ++ julySplit :: []) julyLabel.entryAt).map
          (fun rows => rows.map fun row => row.priced) =
      (asofView summerClocks .primary [julyBar (ordinal 2026 7 6)] ([] ++ [])
        julyLabel.entryAt).map (fun rows => rows.map fun row => row.priced) ∧
    (∃ rows, asofView summerClocks .primary [julyBar (ordinal 2026 7 6)] [julySplit]
        julyLabel.exitAt = .ok rows ∧ (rows.map fun row => row.quoted) =
          ([julyBar (ordinal 2026 7 6)].filter fun bar =>
            bar.availableAt ≤ julyLabel.exitAt).map Bar.quoted) ∧
    (-2 / 1001 : ℚ) = (julyBar (ordinal 2026 7 7)).prices julyLabel.exitPoint.priceField *
        (1 - julyLabel.exitCostBps / 10000) /
      ((julyBar (ordinal 2026 7 6)).prices julyLabel.entryPoint.priceField *
        (1 + julyLabel.entryCostBps / 10000)) - 1 := by
  have sound := splitViews_sound summerClocks .primary
  refine ⟨?_, ?_, ?_⟩
  · exact sound.1 _ [] [] julySplit 2 _ (by decide +kernel) (by decide +kernel)
      ⟨by decide, by simp⟩ (by decide +kernel)
  · exact sound.2.1 _ _ _ (by simp [julyBar_source]) julySplit_trusted (by decide +kernel)
  · exact sound.2.2 julyLabel [julySplit] [julySplit] [julySplit] _ _
      (julyRow (ordinal 2026 7 6) 2 ["FIX:2026-07-07"]) (julyRow (ordinal 2026 7 7) 1 []) _
      (by with_unfolding_all rfl) (by with_unfolding_all rfl) (by with_unfolding_all rfl)
      (by with_unfolding_all rfl) (by decide +kernel)

end TradingEngine.SplitViews
