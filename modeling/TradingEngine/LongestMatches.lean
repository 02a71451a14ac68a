import Mathlib

/-!
# Longest matches

A scan reports the successive leftmost longest matches of a text. A language absorbs a
class of characters when its words are made of them and stay words when one more is put in
front. The scan for such a language finds at most one match in each run of the class, and
the match begins where the run begins.
-/

namespace TradingEngine.LongestMatches

universe u

variable {α : Type u}

section Scan

variable (accepts : List α → Bool)

/-- The longest match among the beginnings of the text up to a length. -/
def longestWithin (text : List α) : ℕ → Option (List α)
  | 0 => none
  | length + 1 =>
    if accepts (text.take (length + 1)) then some (text.take (length + 1))
    else longestWithin text length

def longest (text : List α) : Option (List α) := longestWithin accepts text text.length

/-- The successive matches. The number is how many characters of the last one are still to
be passed over. -/
def scan : List α → ℕ → List (List α)
  | [], _ => []
  | _ :: rest, passed + 1 => scan rest passed
  | character :: rest, 0 =>
    match longest accepts (character :: rest) with
    | some word => word :: scan rest (word.length - 1)
    | none => scan rest 0

end Scan

variable {accepts : List α → Bool}

theorem longestWithin_some {text word : List α} {bound : ℕ}
    (found : longestWithin accepts text bound = some word) :
    ∃ length, 0 < length ∧ length ≤ bound ∧ word = text.take length ∧ accepts word ∧
      ∀ longer, length < longer → longer ≤ bound → accepts (text.take longer) = false := by
  induction bound with
  | zero => simp [longestWithin] at found
  | succ bound ih =>
    rw [longestWithin] at found
    split at found
    · rename_i accepted
      obtain rfl := Option.some.inj found
      refine ⟨bound + 1, Nat.succ_pos bound, le_refl _, rfl, accepted, ?_⟩
      intro longer above within
      omega
    · rename_i refused
      obtain ⟨length, positive, within, same, accepted, greatest⟩ := ih found
      refine ⟨length, positive, by omega, same, accepted, fun longer above bounded => ?_⟩
      by_cases last : longer = bound + 1
      · subst last
        simpa using refused
      · exact greatest longer above (by omega)

theorem longestWithin_none {text : List α} {bound : ℕ}
    (none : longestWithin accepts text bound = none) {length : ℕ} (positive : 0 < length)
    (within : length ≤ bound) : accepts (text.take length) = false := by
  induction bound with
  | zero => omega
  | succ bound ih =>
    rw [longestWithin] at none
    split at none
    · contradiction
    · rename_i refused
      by_cases last : length = bound + 1
      · subst last
        simpa using refused
      · exact ih none (by omega)

/-- A longest match is a beginning, and no longer beginning matches. -/
theorem longest_some {text word : List α} (found : longest accepts text = some word) :
    word <+: text ∧ word ≠ [] ∧ accepts word ∧
      ∀ other, other <+: text → accepts other → other.length ≤ word.length := by
  obtain ⟨length, positive, within, rfl, accepted, greatest⟩ := longestWithin_some found
  have exact : (text.take length).length = length := by simpa using within
  refine ⟨List.take_prefix _ _, ?_, accepted, fun other starts matched => ?_⟩
  · intro empty
    rw [empty] at exact
    simp at exact
    omega
  · by_contra longer
    have refused := greatest other.length (by omega) starts.length_le
    rw [List.prefix_iff_eq_take.mp starts] at matched
    rw [matched] at refused
    contradiction

theorem longest_none {text : List α} (none : longest accepts text = none) {word : List α}
    (starts : word <+: text) (nonempty : word ≠ []) : accepts word = false := by
  rw [List.prefix_iff_eq_take.mp starts]
  exact longestWithin_none none (List.length_pos_of_ne_nil nonempty) starts.length_le

theorem scan_passed (text : List α) (passed : ℕ) :
    scan accepts text passed = scan accepts (text.drop passed) 0 := by
  induction text generalizing passed with
  | nil => simp [scan]
  | cons character rest ih =>
    cases passed with
    | zero => rfl
    | succ passed => simpa [scan] using ih passed

theorem scan_of_none {character : α} {rest : List α}
    (none : longest accepts (character :: rest) = none) :
    scan accepts (character :: rest) 0 = scan accepts rest 0 := by
  rw [scan, none]

theorem scan_of_some {text word : List α} (found : longest accepts text = some word) :
    scan accepts text 0 = word :: scan accepts (text.drop word.length) 0 := by
  obtain ⟨starts, nonempty, -, -⟩ := longest_some found
  cases text with
  | nil => exact absurd (List.prefix_nil.mp starts) nonempty
  | cons character rest =>
    have positive := List.length_pos_of_ne_nil nonempty
    rw [scan, found, scan_passed]
    obtain ⟨length, same⟩ := Nat.exists_eq_succ_of_ne_zero positive.ne'
    simp [same, scan_passed rest length]

/-- Words of the class that stay words when a character of the class is put in front. -/
structure Absorbing (accepts : List α → Bool) (inClass : α → Bool) : Prop where
  inside : ∀ word, accepts word → ∀ character ∈ word, inClass character
  absorbs : ∀ character word, inClass character → accepts word → accepts (character :: word)
  nonempty : accepts [] = false

namespace Absorbing

variable {inClass : α → Bool} (absorbing : Absorbing accepts inClass)

include absorbing

theorem absorbs_run {run word : List α} (inside : ∀ character ∈ run, inClass character)
    (accepted : accepts word) : accepts (run ++ word) := by
  induction run with
  | nil => exact accepted
  | cons character rest ih =>
    refine absorbing.absorbs character _ (inside _ List.mem_cons_self) ?_
    exact ih fun other listed => inside other (List.mem_cons_of_mem _ listed)

variable {rest : List α}

/-- A match that begins in a run ends in it. -/
theorem starts_within {run word : List α}
    (outside : ∀ character ∈ rest.head?, inClass character = false)
    (accepted : accepts word) (starts : word <+: run ++ rest) : word <+: run := by
  by_cases short : word.length ≤ run.length
  · exact List.prefix_of_prefix_length_le starts (List.prefix_append run rest) short
  · cases rest with
    | nil => simpa using starts
    | cons character rest =>
      have begins : run ++ [character] <+: run ++ character :: rest := ⟨rest, by simp⟩
      have beyond : run ++ [character] <+: word :=
        List.prefix_of_prefix_length_le begins starts (by simp; omega)
      have listed : character ∈ word := beyond.subset (by simp)
      have inside := absorbing.inside word accepted character listed
      rw [outside character (by simp)] at inside
      contradiction

/-- Nothing is found in a run without a word. -/
theorem scan_barren {run : List α}
    (outside : ∀ character ∈ rest.head?, inClass character = false)
    (barren : ∀ word, word <:+: run → accepts word = false) :
    scan accepts (run ++ rest) 0 = scan accepts rest 0 := by
  induction run with
  | nil => rfl
  | cons character run ih =>
    have none : longest accepts (character :: (run ++ rest)) = none := by
      rw [Option.eq_none_iff_forall_ne_some]
      intro word found
      obtain ⟨starts, -, accepted, -⟩ := longest_some found
      have within : word <+: character :: run :=
        absorbing.starts_within outside accepted starts
      rw [barren word within.isInfix] at accepted
      contradiction
    rw [List.cons_append, scan_of_none none]
    exact ih fun word inner =>
      barren word (inner.trans (List.suffix_cons character run).isInfix)

/-- What a run yields: its longest beginning that is a word, if there is one. -/
theorem scan_run {run : List α} (inside : ∀ character ∈ run, inClass character)
    (outside : ∀ character ∈ rest.head?, inClass character = false) :
    scan accepts (run ++ rest) 0 = (longest accepts run).toList ++ scan accepts rest 0 := by
  cases found : longest accepts run with
  | none =>
    refine absorbing.scan_barren outside fun word inner => ?_
    obtain ⟨before, after, same⟩ := inner
    by_contra accepted
    have accepted : accepts word := by simpa using accepted
    have whole : accepts (before ++ word) :=
      absorbing.absorbs_run (fun character listed => inside character (by
        rw [← same]
        simp [listed])) accepted
    have starts : before ++ word <+: run := ⟨after, same⟩
    have nonempty : before ++ word ≠ [] := by
      intro empty
      rw [empty, absorbing.nonempty] at whole
      contradiction
    rw [longest_none found starts nonempty] at whole
    contradiction
  | some word =>
    obtain ⟨starts, nonempty, accepted, greatest⟩ := longest_some found
    have whole : longest accepts (run ++ rest) = some word := by
      cases other : longest accepts (run ++ rest) with
      | none =>
        have refused := longest_none other (starts.trans (List.prefix_append run rest)) nonempty
        rw [accepted] at refused
        contradiction
      | some longer =>
        obtain ⟨first, -, matched, highest⟩ := longest_some other
        have within := absorbing.starts_within outside matched first
        have same : longer.length = word.length :=
          le_antisymm (greatest longer within matched)
            (highest word (starts.trans (List.prefix_append run rest)) accepted)
        rw [List.prefix_iff_eq_take.mp within, List.prefix_iff_eq_take.mp starts, same]
    obtain ⟨remaining, same⟩ := starts
    have dropped : (run ++ rest).drop word.length = remaining ++ rest := by
      rw [← same, List.append_assoc, List.drop_left]
    rw [scan_of_some whole, dropped]
    show word :: _ = word :: _
    congr 1
    refine absorbing.scan_barren outside fun inner within => ?_
    obtain ⟨before, after, split⟩ := within
    by_contra found
    have found : accepts inner := by simpa using found
    have longer : accepts (word ++ before ++ inner) :=
      absorbing.absorbs_run (fun character listed => inside character (by
        rw [← same, ← split]
        simp only [List.mem_append] at listed ⊢
        tauto)) found
    have bounded := greatest _ ⟨after, by rw [← same, ← split]; simp⟩ longer
    have positive : inner ≠ [] := by
      rintro rfl
      rw [absorbing.nonempty] at found
      contradiction
    have := List.length_pos_of_ne_nil positive
    simp only [List.length_append] at bounded
    omega

/-- Nothing is found at a character outside the class. -/
theorem scan_outside {character : α} (outside : inClass character = false) :
    scan accepts (character :: rest) 0 = scan accepts rest 0 := by
  refine scan_of_none (Option.eq_none_iff_forall_ne_some.mpr fun word found => ?_)
  obtain ⟨starts, nonempty, accepted, -⟩ := longest_some found
  cases word with
  | nil => contradiction
  | cons first word =>
    obtain ⟨rfl, -⟩ := List.cons_prefix_cons.mp starts
    rw [absorbing.inside _ accepted first List.mem_cons_self] at outside
    contradiction

/-- Exactly the words are found that begin a run and that the run does not continue to a
longer word. -/
theorem mem_scan_iff {text word : List α} :
    word ∈ scan accepts text 0 ↔
      ∃ before after, text = before ++ word ++ after ∧
        (∀ character ∈ before.getLast?, inClass character = false) ∧ accepts word ∧
        ∀ more, more ≠ [] → more <+: after → accepts (word ++ more) = false := by
  induction size : text.length using Nat.strong_induction_on generalizing text with
  | _ size ih =>
  subst size
  obtain ⟨run, rest, same, inside, outside⟩ : ∃ run rest, text = run ++ rest ∧
      (∀ character ∈ run, inClass character) ∧
      (∀ character ∈ rest.head?, inClass character = false) := by
    refine ⟨text.takeWhile inClass, text.dropWhile inClass,
      List.takeWhile_append_dropWhile.symm, fun character listed =>
        List.mem_takeWhile_imp listed, fun character listed => ?_⟩
    have := List.head?_dropWhile_not inClass text
    rw [Option.mem_def.mp listed] at this
    simpa using this
  subst same
  rw [absorbing.scan_run inside outside, List.mem_append]
  constructor
  · rintro (first | later)
    · have found : longest accepts run = some word := by simpa using first
      obtain ⟨⟨remaining, rfl⟩, nonempty, accepted, greatest⟩ := longest_some found
      refine ⟨[], remaining ++ rest, by simp, by simp, accepted, fun more some starts => ?_⟩
      by_contra longer
      have longer : accepts (word ++ more) := by simpa using longer
      have within : word ++ more <+: word ++ remaining := by
        refine absorbing.starts_within outside longer ?_
        rw [List.append_assoc]
        exact (List.prefix_append_right_inj word).mpr starts
      have bounded := greatest _ within longer
      have positive := List.length_pos_of_ne_nil some
      simp only [List.length_append] at bounded
      omega
    · cases rest with
      | nil => simp [scan] at later
      | cons character rest =>
        have beside := outside character (by simp)
        rw [absorbing.scan_outside beside] at later
        obtain ⟨before, after, rfl, boundary, accepted, alone⟩ :=
          (ih rest.length (by simp; omega) rfl).mp later
        refine ⟨run ++ character :: before, after, by simp, ?_, accepted, alone⟩
        intro last final
        cases before with
        | nil =>
          obtain rfl : last = character := by simpa using final.symm
          exact beside
        | cons other before => exact boundary last (by simpa using final)
  · rintro ⟨before, after, split, boundary, accepted, alone⟩
    have nonempty : word ≠ [] := by
      rintro rfl
      rw [absorbing.nonempty] at accepted
      contradiction
    by_cases start : before = []
    · subst start
      left
      have begins : word <+: run ++ rest := ⟨after, by simpa using split.symm⟩
      have within := absorbing.starts_within outside accepted begins
      cases found : longest accepts run with
      | none =>
        rw [longest_none found within nonempty] at accepted
        contradiction
      | some longer =>
        obtain ⟨starts, -, matched, greatest⟩ := longest_some found
        have further : word <+: longer :=
          List.prefix_of_prefix_length_le within starts (greatest word within accepted)
        obtain ⟨more, rfl⟩ := further
        by_cases more = []
        · simp_all
        · rename_i continued
          have onward : more <+: after := by
            have whole := starts.trans (List.prefix_append run rest)
            rw [split, List.nil_append] at whole
            exact (List.prefix_append_right_inj word).mp whole
          rw [alone more continued onward] at matched
          contradiction
    · right
      obtain ⟨earlier, last, rfl⟩ := List.eq_nil_or_concat before |>.resolve_left start
      have beside := boundary last (by simp)
      have passes : run <+: earlier := by
        have begins : run <+: run ++ rest := List.prefix_append run rest
        rw [split] at begins
        by_cases short : run.length ≤ earlier.length
        · refine List.prefix_of_prefix_length_le begins ?_ short
          exact ⟨last :: word ++ after, by simp⟩
        · have reaches : earlier ++ [last] <+: run :=
            List.prefix_of_prefix_length_le ⟨word ++ after, by simp⟩ begins (by simp; omega)
          have := inside last (reaches.subset (by simp))
          rw [beside] at this
          contradiction
      obtain ⟨remaining, rfl⟩ := passes
      have onward : rest = remaining ++ last :: (word ++ after) := by
        simpa only [List.append_assoc, List.append_cancel_left_eq, List.cons_append,
          List.nil_append, List.concat_eq_append] using split
      subst onward
      cases remaining with
      | nil =>
        rw [List.nil_append, absorbing.scan_outside beside]
        refine (ih (word ++ after).length (by simp; omega) rfl).mpr ?_
        exact ⟨[], after, by simp, by simp, accepted, alone⟩
      | cons character remaining =>
        rw [List.cons_append, absorbing.scan_outside (outside character (by simp))]
        refine (ih (remaining ++ last :: (word ++ after)).length
          (by simp; omega) rfl).mpr ?_
        refine ⟨remaining ++ [last], after, by simp, ?_, accepted, alone⟩
        intro other final
        obtain rfl : other = last := by simpa using final.symm
        exact beside

end Absorbing

end TradingEngine.LongestMatches
