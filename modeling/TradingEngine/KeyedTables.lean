import Mathlib

/-!
# Totals over tables with a primary key

A table with a primary key is an association list whose keys are distinct. A
total adds one value for every row. Inserting, replacing and deleting a row
changes a total by the values of the rows involved, whatever their order; these
laws are all that the accounting of such a table needs.
-/

namespace TradingEngine.KeyedTables

universe u v w
variable {κ : Type u} {ρ : Type v} {M : Type w}

/-- Rows stored under distinct keys. -/
abbrev Table (κ : Type u) (ρ : Type v) := AList (fun _ : κ => ρ)

/-- Add one value for every row. -/
def total [AddMonoid M] (value : κ → ρ → M) (table : Table κ ρ) : M :=
  (table.entries.map fun row => value row.1 row.2).sum

/-- A running maximum is at least every key that it saw. -/
theorem le_foldr_max [LinearOrder κ] {key first : κ} {keys : List κ} (listed : key ∈ keys) :
    key ≤ keys.foldr max first := by
  induction keys with
  | nil => cases listed
  | cons head rest ih =>
    rcases List.mem_cons.mp listed with rfl | later
    · exact le_max_left _ _
    · exact le_max_of_le_right (ih later)

/-- Rewrite every stored row in place; keys and their order are kept. -/
def mapRows (change : κ → ρ → ρ) (table : Table κ ρ) : Table κ ρ where
  entries := table.entries.map fun row => ⟨row.1, change row.1 row.2⟩
  nodupKeys := by
    have keys : (table.entries.map fun row : Σ _ : κ, ρ =>
        (⟨row.1, change row.1 row.2⟩ : Σ _ : κ, ρ)).keys = table.entries.keys := by
      simp [List.keys, Function.comp_def]
    rw [List.NodupKeys, keys]
    exact table.nodupKeys

/-- Keep the rows that satisfy a test. -/
def filterRows (keep : κ → ρ → Bool) (table : Table κ ρ) : Table κ ρ where
  entries := table.entries.filter fun row => keep row.1 row.2
  nodupKeys := table.nodupKeys.sublist List.filter_sublist

/-- Rewriting rows keeps their keys. -/
@[simp] theorem keys_mapRows (change : κ → ρ → ρ) (table : Table κ ρ) :
    (mapRows change table).keys = table.keys := by
  simp [AList.keys, List.keys, mapRows, Function.comp_def]

/-- Rewriting rows to themselves changes nothing. -/
theorem mapRows_eq_self {change : κ → ρ → ρ} {table : Table κ ρ}
    (same : ∀ row ∈ table.entries, change row.1 row.2 = row.2) : mapRows change table = table := by
  refine AList.ext ?_
  unfold mapRows
  dsimp only
  refine (List.map_congr_left fun row member => ?_).trans (List.map_id' _)
  rw [same row member]

@[simp] theorem total_empty [AddMonoid M] (value : κ → ρ → M) :
    total value (∅ : Table κ ρ) = 0 := rfl

/-- Totals of equal values are equal. -/
theorem total_congr [AddMonoid M] {value other : κ → ρ → M} {table : Table κ ρ}
    (same : ∀ row ∈ table.entries, value row.1 row.2 = other row.1 row.2) :
    total value table = total other table := by
  unfold total
  rw [List.map_congr_left same]

/-- A total after rewriting every row adds the rewritten values. -/
@[simp] theorem total_mapRows [AddMonoid M] (value : κ → ρ → M) (change : κ → ρ → ρ)
    (table : Table κ ρ) :
    total value (mapRows change table) = total (fun key row => value key (change key row)) table := by
  simp [total, mapRows, Function.comp_def]

/-- Totals add value by value. -/
theorem total_add [AddCommMonoid M] (value other : κ → ρ → M) (table : Table κ ρ) :
    total (fun key row => value key row + other key row) table =
      total value table + total other table := by
  simp [total, List.sum_map_add]

/-- A common factor leaves the total. -/
theorem total_mul [NonUnitalNonAssocSemiring M] (value : κ → ρ → M) (factor : M)
    (table : Table κ ρ) :
    total (fun key row => value key row * factor) table = total value table * factor := by
  simp [total, List.sum_map_mul_right]

/-- Totals of smaller values are smaller. -/
theorem total_le_total [AddCommMonoid M] [Preorder M] [AddLeftMono M] [AddRightMono M]
    {value other : κ → ρ → M} {table : Table κ ρ}
    (smaller : ∀ row ∈ table.entries, value row.1 row.2 ≤ other row.1 row.2) :
    total value table ≤ total other table :=
  List.sum_le_sum smaller

variable [DecidableEq κ]

/-- Rows under the keys they are listed with. -/
def tableOf (rows : List (κ × ρ)) : Table κ ρ :=
  rows.foldr (fun row table => table.insert row.1 row.2) ∅

/-- A found row stands at the front of some reordering of the table. -/
theorem entries_perm_of_lookup {table : Table κ ρ} {key : κ} {row : ρ}
    (found : table.lookup key = some row) :
    table.entries.Perm (⟨key, row⟩ :: (table.erase key).entries) := by
  have member : (⟨key, row⟩ : Σ _ : κ, ρ) ∈ table.entries := List.of_mem_dlookup found
  have listed : key ∈ table.entries.keys := List.mem_keys.mpr ⟨row, member⟩
  obtain ⟨stored, front, back, _, split, erased⟩ := List.exists_of_kerase listed
  have same : stored = row := by
    have inside : (⟨key, stored⟩ : Σ _ : κ, ρ) ∈ table.entries := by simp [split]
    exact Option.some.inj ((List.mem_dlookup table.nodupKeys inside).symm.trans found)
  subst same
  change table.entries.Perm (⟨key, stored⟩ :: List.kerase key table.entries)
  rw [erased]
  nth_rewrite 1 [split]
  exact List.perm_middle

/-- Deleting a found row removes its value. -/
theorem total_erase [AddCommMonoid M] (value : κ → ρ → M) {table : Table κ ρ} {key : κ}
    {row : ρ} (found : table.lookup key = some row) :
    total value table = value key row + total value (table.erase key) := by
  unfold total
  rw [((entries_perm_of_lookup found).map _).sum_eq]
  simp

/-- A selection that leaves a key out does not see what is stored under it. -/
theorem filter_insert (table : Table κ ρ) {key : κ} (row : ρ)
    {keep : (Σ _ : κ, ρ) → Bool} (dropped : ∀ value, keep ⟨key, value⟩ = false) :
    (table.insert key row).entries.filter keep = table.entries.filter keep := by
  rw [AList.entries_insert, List.filter_cons_of_neg (by simp [dropped])]
  by_cases listed : key ∈ table.entries.keys
  · obtain ⟨stored, front, back, _, split, erased⟩ := List.exists_of_kerase listed
    rw [erased, split, List.filter_append, List.filter_append,
      List.filter_cons_of_neg (by simp [dropped])]
  · rw [List.kerase_of_notMem_keys listed]

/-- Deleting a missing key changes no total. -/
theorem erase_of_missing {table : Table κ ρ} {key : κ} (missing : table.lookup key = none) :
    table.erase key = table :=
  AList.ext (List.kerase_of_notMem_keys (List.dlookup_eq_none.mp missing))

/-- Inserting or replacing a row adds its value to what the other rows hold. -/
theorem total_insert [AddCommMonoid M] (value : κ → ρ → M) (table : Table κ ρ) (key : κ)
    (row : ρ) :
    total value (table.insert key row) = value key row + total value (table.erase key) := by
  simp [total, AList.entries_insert, AList.erase]

/-- Inserting at a missing key adds the row's value. -/
theorem total_insert_new [AddCommMonoid M] (value : κ → ρ → M) {table : Table κ ρ} {key : κ}
    (row : ρ) (missing : table.lookup key = none) :
    total value (table.insert key row) = value key row + total value table := by
  rw [total_insert, erase_of_missing missing]

/-- Replacing a found row exchanges the two values. -/
theorem total_replace [AddCommMonoid M] (value : κ → ρ → M) {table : Table κ ρ} {key : κ}
    {old : ρ} (row : ρ) (found : table.lookup key = some old) :
    total value (table.insert key row) + value key old = value key row + total value table := by
  rw [total_insert, total_erase value found]
  abel

/-- Rewriting every row rewrites what a key finds. -/
theorem lookup_mapRows (change : κ → ρ → ρ) (table : Table κ ρ) (key : κ) :
    (mapRows change table).lookup key = (table.lookup key).map (change key) := by
  have listed : ∀ entries : List (Σ _ : κ, ρ),
      (List.dlookup key (entries.map fun row => (⟨row.1, change row.1 row.2⟩ : Σ _ : κ, ρ)) :
        Option ρ) = (List.dlookup key entries : Option ρ).map (change key) := by
    intro entries
    induction entries with
    | nil => rfl
    | cons row rest ih =>
      obtain ⟨other, value⟩ := row
      by_cases same : key = other
      · subst same
        simp
      · rw [List.map_cons, List.dlookup_cons_ne _ _ same, List.dlookup_cons_ne _ _ same]
        exact ih
  exact listed table.entries

/-- A listed row is the one its key finds. -/
theorem lookup_of_mem {table : Table κ ρ} {row : Σ _ : κ, ρ} (listed : row ∈ table.entries) :
    table.lookup row.1 = some row.2 :=
  List.mem_dlookup table.nodupKeys listed

/-- A found row is listed. -/
theorem mem_of_lookup {table : Table κ ρ} {key : κ} {row : ρ}
    (found : table.lookup key = some row) : (⟨key, row⟩ : Σ _ : κ, ρ) ∈ table.entries :=
  List.of_mem_dlookup found

/-- A kept row is found under its key; a dropped one leaves nothing. -/
theorem lookup_filterRows (keep : κ → ρ → Bool) (table : Table κ ρ) (key : κ) :
    (filterRows keep table).lookup key = (table.lookup key).filter (keep key) := by
  ext row
  simp only [Option.filter_eq_some_iff]
  constructor
  · intro found
    obtain ⟨listed, kept⟩ := List.mem_filter.mp (mem_of_lookup found)
    exact ⟨lookup_of_mem listed, kept⟩
  · rintro ⟨found, kept⟩
    have listed : (⟨key, row⟩ : Σ _ : κ, ρ) ∈ (filterRows keep table).entries :=
      List.mem_filter.mpr ⟨mem_of_lookup found, kept⟩
    exact lookup_of_mem listed

/-- Rewriting one row exchanges its values. -/
theorem total_rewrite [AddCommMonoid M] (value : κ → ρ → M) {table : Table κ ρ} {key : κ} {row : ρ}
    (change : ρ → ρ) (found : table.lookup key = some row) :
    total value (mapRows (fun other row => if other = key then change row else row) table) +
      value key row = value key (change row) + total value table := by
  have others : total (fun other row => value other (if other = key then change row else row))
      (table.erase key) = total value (table.erase key) := by
    refine total_congr ?_
    intro entry listed
    have different : entry.1 ≠ key := by
      rintro rfl
      exact (AList.mem_erase.mp (AList.mem_keys.mpr (List.mem_keys_of_mem listed))).1 rfl
    rw [if_neg different]
  rw [total_mapRows, total_erase _ found, total_erase value found, others, if_pos rfl]
  abel

/-- New rows in front of a table. -/
def Grown (fresh : κ → ρ → Prop) (before after : Table κ ρ) : Prop :=
  ∃ new, after.entries = new ++ before.entries ∧ ∀ row ∈ new, fresh row.1 row.2

namespace Grown

variable {fresh : κ → ρ → Prop} {before after : Table κ ρ}

omit [DecidableEq κ] in
theorem refl (table : Table κ ρ) : Grown fresh table table := ⟨[], rfl, by simp⟩

omit [DecidableEq κ] in
theorem trans {later : Table κ ρ} (first : Grown fresh before after)
    (second : Grown fresh after later) : Grown fresh before later := by
  obtain ⟨old, entries, isFresh⟩ := first
  obtain ⟨new, moreEntries, moreFresh⟩ := second
  refine ⟨new ++ old, by rw [moreEntries, entries, List.append_assoc], ?_⟩
  intro row member
  rcases List.mem_append.mp member with listed | listed
  · exact moreFresh row listed
  · exact isFresh row listed

omit [DecidableEq κ] in
theorem mono {wider : κ → ρ → Prop} (grown : Grown fresh before after)
    (implies : ∀ key row, fresh key row → wider key row) : Grown wider before after := by
  obtain ⟨new, entries, isFresh⟩ := grown
  exact ⟨new, entries, fun row member => implies _ _ (isFresh row member)⟩

theorem insert {key : κ} {row : ρ} (missing : before.lookup key = none)
    (isFresh : fresh key row) : Grown fresh before (before.insert key row) := by
  refine ⟨[⟨key, row⟩], ?_, by simpa using isFresh⟩
  rw [AList.entries_insert_of_notMem (AList.lookup_eq_none.mp missing)]
  rfl

/-- A key that no new row can have finds what it found before. -/
theorem lookup (grown : Grown fresh before after) {key : κ}
    (old : ∀ row, ¬ fresh key row) : after.lookup key = before.lookup key := by
  obtain ⟨new, entries, isFresh⟩ := grown
  have unlisted : List.dlookup key new = none := by
    rw [List.dlookup_eq_none]
    intro member
    obtain ⟨row, listed⟩ := List.exists_of_mem_keys member
    exact old row (isFresh ⟨key, row⟩ listed)
  unfold AList.lookup
  rw [entries, List.dlookup_append, unlisted, Option.none_or]

/-- Rows stay where they were. -/
theorem kept (grown : Grown fresh before after) {key : κ} {row : ρ}
    (found : before.lookup key = some row) : after.lookup key = some row := by
  obtain ⟨new, entries, _⟩ := grown
  have listed : (⟨key, row⟩ : Σ _ : κ, ρ) ∈ after.entries := by
    rw [entries]
    exact List.mem_append_right _ (mem_of_lookup found)
  exact lookup_of_mem listed

omit [DecidableEq κ] in
/-- What is selected among the rows when no new row is. -/
theorem filter_map {α : Type*} (grown : Grown fresh before after) {image : (Σ _ : κ, ρ) → α}
    {selected : α → Bool}
    (dropped : ∀ row : Σ _ : κ, ρ, fresh row.1 row.2 → selected (image row) = false) :
    (after.entries.map image).filter selected = (before.entries.map image).filter selected := by
  obtain ⟨new, entries, isFresh⟩ := grown
  have none : (new.map image).filter selected = [] := by
    rw [List.filter_eq_nil_iff]
    intro value listed
    obtain ⟨row, member, rfl⟩ := List.mem_map.mp listed
    simp [dropped row (isFresh row member)]
  rw [entries, List.map_append, List.filter_append, none, List.nil_append]

omit [DecidableEq κ] in
/-- A total to which no new row adds. -/
theorem total [AddMonoid M] (grown : Grown fresh before after) {value : κ → ρ → M}
    (nothing : ∀ key row, fresh key row → value key row = 0) :
    KeyedTables.total value after = KeyedTables.total value before := by
  obtain ⟨new, entries, isFresh⟩ := grown
  have none : (new.map fun row => value row.1 row.2).sum = 0 := by
    refine List.sum_eq_zero ?_
    intro amount listed
    obtain ⟨row, member, rfl⟩ := List.mem_map.mp listed
    exact nothing _ _ (isFresh row member)
  unfold KeyedTables.total
  rw [entries, List.map_append, List.sum_append, none, zero_add]

end Grown

end TradingEngine.KeyedTables
