import TradingEngine.Reconciliation

/-!
# What a comparison tells

A comparison of two captured snapshots finds nothing exactly when accounts, positions
and open orders are the same and the fills are the same up to their order. A match is
recorded only over equal payloads, and a payload keeps the fills in the order of the
snapshot, which goes by execution identifier within a day. So a comparison that finds
nothing over rearranged fills ends in a refused match.
-/

namespace TradingEngine.Broker

open KeyedTables Runs

/-- Mappings over the same names have no differences exactly when they are equal. -/
theorem compareMapping_nil {category key : String} {expected observed : List (String × FieldValue)}
    (names : expected.map Prod.fst = observed.map Prod.fst) :
    compareMapping category key expected observed = [] ↔ expected = observed := by
  induction expected generalizing observed with
  | nil =>
    have none' : observed = [] := List.map_eq_nil_iff.mp names.symm
    simp [none', compareMapping]
  | cons entry rest ih =>
    cases observed with
    | nil => simp at names
    | cons other later =>
      obtain ⟨name, more⟩ := List.cons.inj names
      have behind := ih more
      unfold compareMapping at behind ⊢
      rw [List.zip_cons_cons, List.filterMap_cons]
      by_cases same : entry.2 = other.2
      · have head : entry = other := Prod.ext name same
        simpa [same, head] using behind
      · have apart : entry ≠ other := fun equal => same (congrArg Prod.snd equal)
        simp [same, apart]

theorem fields_nil {α : Type} {fields : α → List (String × FieldValue)}
    (names : ∀ expected observed, (fields expected).map Prod.fst = (fields observed).map Prod.fst)
    (injective : Function.Injective fields) (category key : String) (expected observed : α) :
    compareMapping category key (fields expected) (fields observed) = [] ↔ expected = observed :=
  (compareMapping_nil (names expected observed)).trans injective.eq_iff

theorem accountFields_injective : Function.Injective ComparableAccount.fields := by
  intro expected observed same
  cases expected
  cases observed
  simp_all [ComparableAccount.fields]

theorem positionFields_injective : Function.Injective ComparablePosition.fields := by
  intro expected observed same
  cases expected
  cases observed
  simp_all [ComparablePosition.fields]

theorem orderFields_injective : Function.Injective ComparableOrder.fields := by
  intro expected observed same
  cases expected
  cases observed
  simp_all [ComparableOrder.fields]

theorem fillFields_injective : Function.Injective ComparableFill.fields := by
  intro expected observed same
  cases expected
  cases observed
  simp_all [ComparableFill.fields]

section Keyed

variable {α : Type} {keyText : α → String}

/-- Under distinct keys every row is found. -/
theorem lookup_byKey {rows : List α} (distinct : (rows.map keyText).Nodup) (key : String) (row : α) :
    (byKey keyText rows).lookup key = some row ↔ row ∈ rows ∧ keyText row = key := by
  induction rows using List.reverseRecOn with
  | nil => simp [byKey]
  | append_singleton earlier last ih =>
    rw [List.map_append, List.map_singleton] at distinct
    have apart : ∀ other ∈ earlier, keyText other ≠ keyText last := by
      intro other listed same
      exact (List.nodup_append.mp distinct).2.2 _ (List.mem_map_of_mem listed) _
        (List.mem_singleton.mpr rfl) same
    have behind := ih (List.nodup_append.mp distinct).1
    have grown : byKey keyText (earlier ++ [last]) =
        (byKey keyText earlier).insert (keyText last) last := by
      simp [byKey]
    rw [grown]
    by_cases same : key = keyText last
    · subst same
      rw [AList.lookup_insert]
      constructor
      · intro found
        cases found
        exact ⟨by simp, rfl⟩
      · rintro ⟨listed, key⟩
        rcases List.mem_append.mp listed with old | new
        · exact (apart row old key).elim
        · rw [List.mem_singleton.mp new]
    · rw [AList.lookup_insert_ne same, behind]
      constructor
      · rintro ⟨listed, key⟩
        exact ⟨List.mem_append_left _ listed, key⟩
      · rintro ⟨listed, rfl⟩
        rcases List.mem_append.mp listed with old | new
        · exact ⟨old, rfl⟩
        · exact (same (by rw [List.mem_singleton.mp new])).elim

variable {category : String} {fields : α → List (String × FieldValue)} {shown : α → Observation}

/-- Keyed rows have no differences exactly when both sides have the same rows. -/
theorem compareKeyed_nil {expected observed : List α}
    (told : ∀ category key expected observed,
      compareMapping category key (fields expected) (fields observed) = [] ↔ expected = observed)
    (expectedDistinct : (expected.map keyText).Nodup)
    (observedDistinct : (observed.map keyText).Nodup) :
    compareKeyed category keyText fields shown expected observed = [] ↔
      ∀ row, row ∈ expected ↔ row ∈ observed := by
  have inExpected := lookup_byKey expectedDistinct
  have inObserved := lookup_byKey observedDistinct
  have keysOf : ∀ {rows : List α}, (rows.map keyText).Nodup → ∀ key,
      key ∈ byKey keyText rows ↔ ∃ row ∈ rows, keyText row = key := by
    intro rows distinct key
    rw [← AList.lookup_isSome, Option.isSome_iff_exists]
    exact exists_congr fun row => lookup_byKey distinct key row
  unfold compareKeyed
  simp only [List.append_eq_nil_iff, List.map_eq_nil_iff, sortedTexts, List.flatMap_eq_nil_iff,
    List.mem_mergeSort]
  constructor
  · rintro ⟨⟨missing, extra⟩, changed⟩ row
    have emptied : ∀ {keys : List String}, keys.mergeSort (fun a b => decide (a ≤ b)) = [] →
        keys = [] := by
      intro keys sorted
      have rearranged := List.mergeSort_perm keys fun a b => decide (a ≤ b)
      rw [sorted] at rearranged
      exact List.nil_perm.mp rearranged
    have both : ∀ key, key ∈ byKey keyText expected ↔ key ∈ byKey keyText observed := by
      intro key
      constructor
      · intro here
        by_contra there
        have listed : key ∈ (byKey keyText expected).keys.filter
            fun key => key ∉ byKey keyText observed :=
          List.mem_filter.mpr ⟨AList.mem_keys.mpr here, decide_eq_true there⟩
        rw [emptied missing] at listed
        cases listed
      · intro there
        by_contra here
        have listed : key ∈ (byKey keyText observed).keys.filter
            fun key => key ∉ byKey keyText expected :=
          List.mem_filter.mpr ⟨AList.mem_keys.mpr there, decide_eq_true here⟩
        rw [emptied extra] at listed
        cases listed
    have agree : ∀ key row other, (byKey keyText expected).lookup key = some row →
        (byKey keyText observed).lookup key = some other → row = other := by
      intro key row other here there
      have nothing := changed key (List.mem_filter.mpr
        ⟨AList.mem_keys.mpr (AList.lookup_isSome.mp (by rw [here]; rfl)),
          decide_eq_true (AList.lookup_isSome.mp (by rw [there]; rfl))⟩)
      rw [here, there] at nothing
      exact (told _ _ _ _).mp nothing
    constructor
    · intro listed
      have here := (inExpected (keyText row) row).mpr ⟨listed, rfl⟩
      obtain ⟨other, member, key⟩ := (keysOf observedDistinct (keyText row)).mp
        ((both _).mp (AList.lookup_isSome.mp (by rw [here]; rfl)))
      rw [agree _ row other here ((inObserved _ other).mpr ⟨member, key⟩)]
      exact member
    · intro listed
      have there := (inObserved (keyText row) row).mpr ⟨listed, rfl⟩
      obtain ⟨other, member, key⟩ := (keysOf expectedDistinct (keyText row)).mp
        ((both _).mpr (AList.lookup_isSome.mp (by rw [there]; rfl)))
      rw [← agree _ other row ((inExpected _ other).mpr ⟨member, key⟩) there]
      exact member
  · intro same
    have both : ∀ key, key ∈ byKey keyText expected ↔ key ∈ byKey keyText observed := by
      intro key
      rw [keysOf expectedDistinct, keysOf observedDistinct]
      exact exists_congr fun row => and_congr_left fun _ => same row
    refine ⟨⟨?_, ?_⟩, ?_⟩
    · have none' : ((byKey keyText expected).keys.filter fun key => key ∉ byKey keyText observed) = [] := by
        refine List.filter_eq_nil_iff.mpr fun key listed => ?_
        simpa using (both key).mp (AList.mem_keys.mp listed)
      rw [none', List.mergeSort_nil]
    · have none' : ((byKey keyText observed).keys.filter fun key => key ∉ byKey keyText expected) = [] := by
        refine List.filter_eq_nil_iff.mpr fun key listed => ?_
        simpa using (both key).mpr (AList.mem_keys.mp listed)
      rw [none', List.mergeSort_nil]
    · intro key _
      split
      · rename_i row other found foundToo
        obtain ⟨member, own⟩ := (inExpected key row).mp found
        have equal := (inObserved key row).mpr ⟨(same row).mp member, own⟩
        rw [foundToo] at equal
        rw [Option.some.inj equal]
        exact (told _ _ _ _).mpr rfl
      · rfl

theorem eq_of_sameRows {expected observed : List α}
    (expectedSorted : expected.Pairwise fun a b => keyText a ≤ keyText b)
    (observedSorted : observed.Pairwise fun a b => keyText a ≤ keyText b)
    (expectedDistinct : (expected.map keyText).Nodup)
    (observedDistinct : (observed.map keyText).Nodup) (same : ∀ row, row ∈ expected ↔ row ∈ observed) :
    expected = observed := by
  have rearranged : expected.Perm observed :=
    (List.perm_ext_iff_of_nodup expectedDistinct.of_map observedDistinct.of_map).mpr same
  refine rearranged.eq_of_pairwise ?_ expectedSorted observedSorted
  intro row other listed listedToo before after
  exact List.inj_on_of_nodup_map expectedDistinct listed ((same other).mpr listedToo)
    (le_antisymm before after)

theorem compareKeyed_sorted {expected observed : List α}
    (told : ∀ category key expected observed,
      compareMapping category key (fields expected) (fields observed) = [] ↔ expected = observed)
    (expectedSorted : expected.Pairwise fun a b => keyText a ≤ keyText b)
    (observedSorted : observed.Pairwise fun a b => keyText a ≤ keyText b)
    (expectedDistinct : (expected.map keyText).Nodup)
    (observedDistinct : (observed.map keyText).Nodup) :
    compareKeyed category keyText fields shown expected observed = [] ↔ expected = observed := by
  rw [compareKeyed_nil told expectedDistinct observedDistinct]
  constructor
  · exact eq_of_sameRows expectedSorted observedSorted expectedDistinct observedDistinct
  · rintro rfl row
    rfl

end Keyed

section Fills

variable {dumps : ComparableFill → String}

/-- Sorted by their texts, the fills of an intent do not depend on how they were listed. -/
theorem fillsOf_eq {expected observed : List ComparableFill} {key : Identifier}
    (tells : ∀ fill ∈ expected, ∀ other ∈ observed, dumps fill = dumps other → fill = other) :
    fillsOf dumps expected key = fillsOf dumps observed key ↔
      (expected.filter fun fill => fill.idempotencyKey = key).Perm
        (observed.filter fun fill => fill.idempotencyKey = key) := by
  have sorted : ∀ fills, (fillsOf dumps fills key).Pairwise fun a b =>
      decide (dumps a ≤ dumps b) = true := by
    intro fills
    refine List.pairwise_mergeSort ?_ ?_ _
    · intro a b c
      simpa using le_trans
    · intro a b
      simpa using le_total (dumps a) (dumps b)
  constructor
  · intro same
    have left := List.mergeSort_perm (expected.filter fun fill => fill.idempotencyKey = key)
      fun a b => dumps a ≤ dumps b
    have right := List.mergeSort_perm (observed.filter fun fill => fill.idempotencyKey = key)
      fun a b => dumps a ≤ dumps b
    unfold fillsOf at same
    rw [same] at left
    exact left.symm.trans right
  · intro rearranged
    have permuted : (fillsOf dumps expected key).Perm (fillsOf dumps observed key) :=
      (List.mergeSort_perm _ _).trans (rearranged.trans (List.mergeSort_perm _ _).symm)
    refine permuted.eq_of_pairwise ?_ (sorted expected) (sorted observed)
    intro a b here there before after
    have listed : ∀ {fills fill}, fill ∈ fillsOf dumps fills key → fill ∈ fills := fun inside =>
      (List.mem_filter.mp (List.mem_mergeSort.mp inside)).1
    exact tells a (listed here) b (listed there)
      (le_antisymm (of_decide_eq_true before) (of_decide_eq_true after))

theorem eq_of_zip {α : Type} {first second : List α} (length : first.length = second.length)
    (agree : ∀ pair ∈ first.zip second, pair.1 = pair.2) : first = second := by
  induction first generalizing second with
  | nil => exact (List.eq_nil_of_length_eq_zero length.symm).symm
  | cons head rest ih =>
    cases second with
    | nil => cases length
    | cons other later =>
      have here : head = other := agree (head, other) List.mem_cons_self
      have behind := ih (Nat.succ.inj length) fun pair listed =>
        agree pair (List.mem_cons_of_mem _ listed)
      rw [here, behind]

/-- The fills of one intent have no differences exactly when their sorted lists agree. -/
theorem compareIntent_nil {key : String} {expected observed : List ComparableFill}
    (length : expected.length = observed.length) :
    ((expected.zip observed).zipIdx.flatMap fun ((fill, other), index) =>
      compareMapping "fill" (key ++ ":" ++ toString index) fill.fields other.fields) = [] ↔
      expected = observed := by
  rw [List.flatMap_eq_nil_iff]
  constructor
  · intro nothing
    refine eq_of_zip length fun pair listed => ?_
    obtain ⟨index, bound, found⟩ := List.getElem_of_mem listed
    have none' := nothing (pair, index) (by
      rw [List.mem_zipIdx_iff_getElem?, List.getElem?_eq_getElem bound, found])
    exact (fields_nil (fun _ _ => rfl) fillFields_injective _ _ _ _).mp none'
  · rintro rfl ⟨⟨fill, other⟩, index⟩ listed
    have found := List.mem_zipIdx_iff_getElem?.mp listed
    obtain ⟨here, there⟩ := List.getElem?_zip_eq_some.mp found
    have same : fill = other := Option.some.inj (here.symm.trans there)
    exact (fields_nil (fun _ _ => rfl) fillFields_injective _ _ _ _).mpr same

/-- Fills have no differences exactly when they are the same up to their order. -/
theorem compareFills_nil {expected observed : List ComparableFill}
    (tells : ∀ fill ∈ expected, ∀ other ∈ observed, dumps fill = dumps other → fill = other) :
    compareFills dumps expected observed = [] ↔ expected.Perm observed := by
  have intent : ∀ key, (if (fillsOf dumps expected key).length ≠ (fillsOf dumps observed key).length
      then [{ classification := "fill_count", key := key.text, field := "fills"
              expected := .fills (fillsOf dumps expected key)
              observed := .fills (fillsOf dumps observed key) }]
      else ((fillsOf dumps expected key).zip (fillsOf dumps observed key)).zipIdx.flatMap
        fun ((fill, other), index) => compareMapping "fill" (key.text ++ ":" ++ toString index)
          fill.fields other.fields) = ([] : List ReconciliationDifference) ↔
      (expected.filter fun fill => fill.idempotencyKey = key).Perm
        (observed.filter fun fill => fill.idempotencyKey = key) := by
    intro key
    rw [← fillsOf_eq tells]
    split
    · rename_i longer
      exact ⟨nofun, fun same => (longer (congrArg List.length same)).elim⟩
    · rename_i length
      exact compareIntent_nil (not_not.mp length)
  unfold compareFills
  rw [List.flatMap_eq_nil_iff]
  constructor
  · intro nothing
    refine List.perm_iff_count.mpr fun fill => ?_
    by_cases listed : fill ∈ expected ++ observed
    · have member : fill.idempotencyKey ∈ fillKeys expected observed := by
        unfold fillKeys
        rw [List.mem_mergeSort, List.mem_eraseDups]
        exact List.mem_map_of_mem listed
      have permuted := (intent fill.idempotencyKey).mp (nothing _ member)
      have count := permuted.count_eq fill
      rwa [List.count_filter (by simp), List.count_filter (by simp)] at count
    · have absent := fun inside => listed (List.mem_append.mpr inside)
      rw [List.count_eq_zero_of_not_mem fun inside => absent (.inl inside),
        List.count_eq_zero_of_not_mem fun inside => absent (.inr inside)]
  · intro permuted key _
    exact (intent key).mpr (permuted.filter _)

end Fills

/-- What a capture guarantees: positions and open orders are listed under distinct keys
in their order. -/
structure Listed (snapshot : BrokerSnapshot) : Prop where
  positions : snapshot.positions.Pairwise fun a b => a.symbol.text ≤ b.symbol.text
  symbols : (snapshot.positions.map fun position => position.symbol.text).Nodup
  openOrders : snapshot.openOrders.Pairwise fun a b => a.idempotencyKey.text ≤ b.idempotencyKey.text
  intents : (snapshot.openOrders.map fun order => order.idempotencyKey.text).Nodup

theorem Symbol.text_injective : Function.Injective Symbol.text := by
  rintro ⟨first, _⟩ ⟨second, _⟩ same
  cases same
  rfl

theorem Identifier.text_injective : Function.Injective Identifier.text := by
  rintro ⟨first, _⟩ ⟨second, _⟩ same
  cases same
  rfl

theorem pairwise_sorted {α : Type} (text : α → String) (rows : List α) :
    (rows.mergeSort fun a b => text a ≤ text b).Pairwise fun a b => text a ≤ text b := by
  have sorted := @List.pairwise_mergeSort _ (fun a b => decide (text a ≤ text b)) ?_ ?_ rows
  · exact sorted.imp fun ordered => of_decide_eq_true ordered
  · intro a b c
    simpa using le_trans
  · intro a b
    simpa using le_total (text a) (text b)

theorem captureOnce_listed {accountId : Identifier} {reading : AccountReading}
    {snapshot : BrokerSnapshot} (captured : captureOnce accountId reading = .ok snapshot) :
    Listed snapshot := by
  unfold captureOnce at captured
  split at captured
  · cases captured
  split at captured
  · cases captured
  split at captured
  · cases captured
  obtain ⟨fills, _, captured⟩ := bind_ok.mp captured
  split at captured
  · cases captured
  split at captured
  · cases captured
  rename_i symbols
  split at captured
  · cases captured
  rename_i intents
  split at captured
  · cases captured
  split at captured
  · cases captured
  cases captured
  refine ⟨pairwise_sorted (fun position : BrokerPosition => position.symbol.text) _, ?_,
    pairwise_sorted (fun order : BrokerOrder => order.idempotencyKey.text) _, ?_⟩
  · have distinct := (not_not.mp symbols).map Symbol.text_injective
    rw [List.map_map] at distinct
    exact ((List.mergeSort_perm _ _).map _).nodup_iff.mpr distinct
  · have distinct := (not_not.mp intents).map Identifier.text_injective
    rw [List.map_map] at distinct
    exact ((List.mergeSort_perm _ _).map _).nodup_iff.mpr distinct

section Verdict

variable {dumps : ComparableFill → String} {expected observed : BrokerSnapshot}

variable (dumps) in
/-- Different fills of the two snapshots have different texts. -/
def TellsApart (expected observed : BrokerSnapshot) : Prop :=
  ∀ fill ∈ expected.fills.map BrokerFill.comparable,
    ∀ other ∈ observed.fills.map BrokerFill.comparable, dumps fill = dumps other → fill = other

/-- Two snapshots agree in everything but perhaps the order of their fills. -/
structure Agrees (expected observed : BrokerSnapshot) : Prop where
  account : expected.account.comparable = observed.account.comparable
  positions : expected.positions.map BrokerPosition.comparable =
    observed.positions.map BrokerPosition.comparable
  openOrders : expected.openOrders.map BrokerOrder.comparable =
    observed.openOrders.map BrokerOrder.comparable
  fills : (expected.fills.map BrokerFill.comparable).Perm (observed.fills.map BrokerFill.comparable)

/-- A comparison finds nothing exactly when the snapshots agree up to the order of fills. -/
theorem compare_nil (tells : TellsApart dumps expected observed) (expectedListed : Listed expected)
    (observedListed : Listed observed) :
    compare dumps expected observed = .ok [] ↔ Agrees expected observed := by
  have positions : compareKeyed "position" (fun row => row.symbol.text) ComparablePosition.fields
      .position (expected.positions.map BrokerPosition.comparable)
      (observed.positions.map BrokerPosition.comparable) = [] ↔
      expected.positions.map BrokerPosition.comparable =
        observed.positions.map BrokerPosition.comparable := by
    refine compareKeyed_sorted (fields_nil (fun _ _ => rfl) positionFields_injective)
      (List.pairwise_map.mpr expectedListed.positions)
      (List.pairwise_map.mpr observedListed.positions) ?_ ?_
    · rw [List.map_map]
      exact expectedListed.symbols
    · rw [List.map_map]
      exact observedListed.symbols
  have openOrders : compareKeyed "order" (fun row => row.idempotencyKey.text) ComparableOrder.fields
      .order (expected.openOrders.map BrokerOrder.comparable)
      (observed.openOrders.map BrokerOrder.comparable) = [] ↔
      expected.openOrders.map BrokerOrder.comparable =
        observed.openOrders.map BrokerOrder.comparable := by
    refine compareKeyed_sorted (fields_nil (fun _ _ => rfl) orderFields_injective)
      (List.pairwise_map.mpr expectedListed.openOrders)
      (List.pairwise_map.mpr observedListed.openOrders) ?_ ?_
    · rw [List.map_map]
      exact expectedListed.intents
    · rw [List.map_map]
      exact observedListed.intents
  have account : compareMapping "account" "account" expected.account.comparable.fields
      observed.account.comparable.fields = [] ↔
      expected.account.comparable = observed.account.comparable :=
    fields_nil (fun _ _ => rfl) accountFields_injective _ _ _ _
  have fills : compareFills dumps (expected.fills.map BrokerFill.comparable)
      (observed.fills.map BrokerFill.comparable) = [] ↔
      (expected.fills.map BrokerFill.comparable).Perm (observed.fills.map BrokerFill.comparable) :=
    compareFills_nil tells
  have found : compare dumps expected observed = .ok [] ↔
      compareMapping "account" "account" expected.account.comparable.fields
        observed.account.comparable.fields = [] ∧
      compareKeyed "position" (fun row => row.symbol.text) ComparablePosition.fields .position
        (expected.positions.map BrokerPosition.comparable)
        (observed.positions.map BrokerPosition.comparable) = [] ∧
      compareKeyed "order" (fun row => row.idempotencyKey.text) ComparableOrder.fields .order
        (expected.openOrders.map BrokerOrder.comparable)
        (observed.openOrders.map BrokerOrder.comparable) = [] ∧
      compareFills dumps (expected.fills.map BrokerFill.comparable)
        (observed.fills.map BrokerFill.comparable) = [] := by
    unfold compare
    dsimp only [BrokerSnapshot.comparablePayload]
    constructor
    · intro nothing
      split at nothing
      · cases nothing
      · simpa [List.append_eq_nil_iff, and_assoc] using Except.ok.inj nothing
    · rintro ⟨account, positions, openOrders, fills⟩
      rw [account, positions, openOrders, fills]
      rfl
  rw [found, account, positions, openOrders, fills]
  constructor
  · rintro ⟨account, positions, openOrders, fills⟩
    exact ⟨account, positions, openOrders, fills⟩
  · rintro ⟨account, positions, openOrders, fills⟩
    exact ⟨account, positions, openOrders, fills⟩

/-- The snapshots agree, but list their fills in different orders. -/
def Rearranged (expected observed : BrokerSnapshot) : Prop :=
  Agrees expected observed ∧
    expected.fills.map BrokerFill.comparable ≠ observed.fills.map BrokerFill.comparable

theorem comparablePayload_eq : expected.comparablePayload = observed.comparablePayload ↔
    Agrees expected observed ∧ ¬ Rearranged expected observed := by
  unfold BrokerSnapshot.comparablePayload Rearranged
  simp only [ComparablePayload.mk.injEq, true_and, not_and, not_not]
  constructor
  · rintro ⟨account, positions, openOrders, fills⟩
    exact ⟨⟨account, positions, openOrders, fills ▸ .refl _⟩, fun _ => fills⟩
  · rintro ⟨agrees, listed⟩
    exact ⟨agrees.account, agrees.positions, agrees.openOrders, listed agrees⟩

/-- Nothing is recorded under a key yet. -/
structure Unrecorded {Digest : Type} (ledger : ReconciliationLedger Digest) (key : Identifier) :
    Prop where
  snapshots : ∀ role, ledger.snapshots.lookup (key, role) = none
  reconciliations : ledger.reconciliations.lookup key = none
  differences : ledger.differences.lookup key = none

variable {Digest : Type} [DecidableEq Digest] {sha256 : ComparablePayload → Digest}

/-- The ledger with both snapshots of a reconciliation. -/
def withSnapshots (ledger : ReconciliationLedger Digest)
    (key expectedAccountId observedAccountId : Identifier) (expected observed : BrokerSnapshot) :
    ReconciliationLedger Digest :=
  { ledger with
    snapshots := (ledger.snapshots.insert (key, .expected) (expectedAccountId, expected)).insert
      (key, .observed) (observedAccountId, observed) }

variable {expectedAccountId observedAccountId : Identifier}

/-- Under a new key both snapshots are recorded; then the result decides. -/
theorem reconcile_compared {ledger : ReconciliationLedger Digest}
    {key : Identifier}
    {differences : List ReconciliationDifference} (unrecorded : Unrecorded ledger key)
    (compared : compare dumps expected observed = .ok differences) :
    reconcile dumps sha256 ledger key expectedAccountId observedAccountId
        (.ok expected) (.ok observed) (.ok expected) =
      (recordReconciliation sha256
        (withSnapshots ledger key expectedAccountId observedAccountId expected observed) key
        expectedAccountId (if differences = [] then .matched else .difference)
        (some expected.comparablePayload) (some observed.comparablePayload)
        { differenceCount := differences.length
          classifications := sortedTexts
            (differences.map ReconciliationDifference.classification).eraseDups }).bind
        fun ledger => (recordReconciliationDifferences ledger key differences).map fun ledger =>
          (⟨if differences = [] then .matched else .difference, some expected, some observed,
            differences⟩, ledger) := by
  have first : recordSnapshot ledger key .expected expectedAccountId expected =
      .ok { ledger with
        snapshots := ledger.snapshots.insert (key, .expected) (expectedAccountId, expected) } := by
    rw [recordSnapshot, unrecorded.snapshots]
  have still : (ledger.snapshots.insert (key, .expected) (expectedAccountId, expected)).lookup
      (key, .observed) = none := by
    rw [AList.lookup_insert_ne (by simp)]
    exact unrecorded.snapshots .observed
  have second : recordSnapshot { ledger with
        snapshots := ledger.snapshots.insert (key, .expected) (expectedAccountId, expected) }
      key .observed observedAccountId observed =
      .ok (withSnapshots ledger key expectedAccountId observedAccountId expected observed) := by
    simp only [recordSnapshot, still, withSnapshots]
  unfold reconcile
  dsimp only
  rw [if_neg (not_not.mpr rfl), compared]
  simp only [Except.bind, first, second]

/-- A comparison is recorded under a new key, unless it would record a match over
payloads with different digests. -/
theorem reconcile_records {ledger : ReconciliationLedger Digest}
    {key : Identifier}
    {differences : List ReconciliationDifference} (unrecorded : Unrecorded ledger key)
    (compared : compare dumps expected observed = .ok differences)
    (equal : differences = [] →
      sha256 expected.comparablePayload = sha256 observed.comparablePayload) :
    ∃ result after, reconcile dumps sha256 ledger key expectedAccountId observedAccountId
        (.ok expected) (.ok observed) (.ok expected) = .ok (result, after) ∧
      result.status = (if differences = [] then .matched else .difference) ∧
      (after.reconciliations.lookup key).map ReconciliationRow.status = some result.status := by
  rw [reconcile_compared unrecorded compared]
  generalize chosen : (if differences = [] then ReconciliationStatus.matched else .difference) = status
  have allowed : ¬ (status = .matched ∧ (some (sha256 expected.comparablePayload) = none ∨
      some (sha256 expected.comparablePayload) ≠ some (sha256 observed.comparablePayload))) := by
    rintro ⟨matched, none' | differ⟩
    · cases none'
    · refine differ (congrArg some (equal ?_))
      by_contra some'
      rw [if_neg some', matched] at chosen
      cases chosen
  have counted : decide (status = .matched) = decide (differences.length = 0) := by
    by_cases nothing : differences = [] <;> simp [← chosen, nothing]
  simp only [recordReconciliation, Option.map_some]
  rw [if_neg allowed]
  simp only [withSnapshots, unrecorded.reconciliations, Except.bind,
    recordReconciliationDifferences, AList.lookup_insert, unrecorded.differences, Option.getD_none,
    ne_eq, not_true_eq_false, if_false]
  rw [if_neg (not_not.mpr counted)]
  split
  · exact ⟨_, _, rfl, rfl, by simp⟩
  · exact ⟨_, _, rfl, rfl, by simp⟩

theorem reconcile_refuses {ledger : ReconciliationLedger Digest}
    {key : Identifier} (unrecorded : Unrecorded ledger key)
    (compared : compare dumps expected observed = .ok [])
    (differ : sha256 expected.comparablePayload ≠ sha256 observed.comparablePayload) :
    reconcile dumps sha256 ledger key expectedAccountId observedAccountId
        (.ok expected) (.ok observed) (.ok expected) =
      .error (.valueError "matching reconciliation requires equal expected and observed state") := by
  rw [reconcile_compared unrecorded compared]
  simp only [recordReconciliation, Option.map_some, if_true]
  rw [if_pos ⟨trivial, .inr fun same => differ (Option.some.inj same)⟩]
  rfl

end Verdict

/-- A fill of one share or of two. -/
def shareFill (execution : Identifier) (quantity : ℚ) (positive : 0 < quantity) : BrokerFill where
  executionId := execution
  brokerOrderId := ⟨"order-1", order1_valid⟩
  idempotencyKey := ⟨"intent-1", intent1_valid⟩
  accountId := ⟨"paper-account", paperAccount_valid⟩
  symbol := ⟨"SPY", spy_valid⟩
  side := .buy
  quantity := quantity
  occurredOn := 0
  referencePrice := 100
  price := 100
  totalCostBps := 0
  quantityPositive := positive
  referencePositive := hundred_positive
  pricePositive := hundred_positive
  costNonneg := zero_nonneg

/-- An account that reports two fills. -/
def readingOf (first second : BrokerFill) : AccountReading where
  account :=
    { accountId := ⟨"paper-account", paperAccount_valid⟩, venue := ⟨"simulator", simulator_valid⟩
      environment := .simulator, active := true, currency := "USD", cash := 100, buyingPower := 100
      initialCash := 400, marginEnabled := false, currencyCode := usd_valid
      cashNonneg := hundred_nonneg, buyingPowerNonneg := hundred_nonneg, initialPositive := by decide }
  positions := []
  openOrders := []
  batches := [⟨[first, second], none, false, by simp [MAX_FILL_BATCH], nofun⟩]

def snapshotOf (first second : BrokerFill) : BrokerSnapshot where
  account := (readingOf first second).account
  positions := []
  openOrders := []
  fills := [first, second]

def paperId : Identifier := ⟨"paper-account", paperAccount_valid⟩
def execution1 : Identifier := ⟨"execution-1", by decide⟩
def execution2 : Identifier := ⟨"execution-2", by decide⟩

/-- Fills that come in the order of their executions are captured as they come. -/
theorem readingOf_captured {firstQuantity secondQuantity : ℚ} (first : 0 < firstQuantity)
    (second : 0 < secondQuantity) :
    captureOnce paperId (readingOf (shareFill execution1 firstQuantity first)
      (shareFill execution2 secondQuantity second)) =
      .ok (snapshotOf (shareFill execution1 firstQuantity first)
        (shareFill execution2 secondQuantity second)) := by
  have sorted : [shareFill execution1 firstQuantity first,
      shareFill execution2 secondQuantity second].mergeSort BrokerFill.listedBefore =
      [shareFill execution1 firstQuantity first, shareFill execution2 secondQuantity second] := by
    have ordered : execution1.text ≤ execution2.text := by decide +kernel
    refine List.mergeSort_of_pairwise (List.pairwise_pair.mpr ?_)
    simp only [BrokerFill.listedBefore, shareFill, ne_eq, not_true_eq_false, if_false]
    exact decide_eq_true ordered
  have distinct : execution1 ≠ execution2 := by decide +kernel
  have collected : captureFills MAX_SNAPSHOT_FILLS (readingOf
      (shareFill execution1 firstQuantity first) (shareFill execution2 secondQuantity second)).batches
      [] none [] = .ok [shareFill execution1 firstQuantity first,
        shareFill execution2 secondQuantity second] := by
    simp [captureFills, readingOf, MAX_SNAPSHOT_FILLS]
  unfold captureOnce
  rw [collected]
  simp only [Except.bind, sorted]
  simp [readingOf, shareFill, snapshotOf, paperId, distinct]

/-- One share and two shares, in this order. -/
def oneThenTwo : BrokerSnapshot :=
  snapshotOf (shareFill execution1 1 (by decide)) (shareFill execution2 2 two_positive)

/-- Two shares and one share: the executions are numbered the other way. -/
def twoThenOne : BrokerSnapshot :=
  snapshotOf (shareFill execution1 2 (by decide)) (shareFill execution2 1 (by decide))

/-- A text that tells these fills apart. -/
def fillText (fill : ComparableFill) : String := if fill.quantity = 1 then "one" else "two"

/-- A digest that tells these payloads apart. -/
def fillQuantities (payload : ComparablePayload) : List ℚ := payload.fills.map ComparableFill.quantity

def noReconciliations : ReconciliationLedger (List ℚ) := ⟨∅, ∅, ∅⟩

end TradingEngine.Broker
