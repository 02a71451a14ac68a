import Mathlib

/-!
# Globs of repository paths

A lane claims paths by globs. A glob is matched segment by segment, `**` stands for any
number of segments, and within a segment a pattern is that of a shell. Two globs are said
to overlap unless some segment keeps them apart, so globs that do not overlap have no path
in common.
-/

namespace TradingEngine.Lanes

abbrev Text := List Char

instance textLawfulBEq : LawfulBEq Text := inferInstance

def isLineBreak (character : Char) : Bool :=
  character.toNat ∈ [0x0A, 0x0B, 0x0C, 0x0D, 0x1C, 0x1D, 0x1E, 0x85, 0x2028, 0x2029]

def isSpace (character : Char) : Bool :=
  isLineBreak character || character.toNat ∈ [0x09, 0x1F, 0x20, 0xA0, 0x1680, 0x202F, 0x205F,
    0x3000] || (0x2000 ≤ character.toNat && character.toNat ≤ 0x200A)

/-- One piece of a translated pattern. -/
inductive Token where
  | star
  | any
  | literal (character : Char)
  | oneOf (negated : Bool) (ranges : List (Char × Char))

/-- The ranges of a class. A hyphen stands for itself at either end. -/
def classRanges : Text → List (Char × Char)
  | low :: '-' :: high :: rest => (low, high) :: classRanges rest
  | character :: rest => (character, character) :: classRanges rest
  | [] => []

/-- The text of a class, which begins after its bracket. A class that is not closed is
none, and a bracket directly at its start does not close it. -/
def classText (text : Text) : Option Text :=
  let (negation, rest) := match text with
    | '!' :: rest => (['!'], rest)
    | _ => ([], text)
  let (first, rest) := match rest with
    | ']' :: rest => ([']'], rest)
    | _ => ([], rest)
  if ']' ∈ rest then some (negation ++ first ++ rest.takeWhile (· != ']')) else none

def classToken : Text → Token
  | '!' :: body => .oneOf true (classRanges body)
  | body => .oneOf false (classRanges body)

/-- Translate a pattern. The number is how many characters of a class are still to be
passed over. -/
def translate : Text → ℕ → List Token
  | [], _ => []
  | _ :: rest, passed + 1 => translate rest passed
  | '*' :: rest, 0 => .star :: translate rest 0
  | '?' :: rest, 0 => .any :: translate rest 0
  | '[' :: rest, 0 =>
    match classText rest with
    | some body => classToken body :: translate rest (body.length + 1)
    | none => .literal '[' :: translate rest 0
  | character :: rest, 0 => .literal character :: translate rest 0

def Token.accepts : Token → Char → Bool
  | .star, _ => true
  | .any, _ => true
  | .literal expected, character => expected == character
  | .oneOf negated ranges, character =>
    negated != ranges.any fun range => range.1 ≤ character && character ≤ range.2

def matchTokens : List Token → Text → Bool
  | [], name => name.isEmpty
  | .star :: rest, name => name.tails.any (matchTokens rest)
  | _ :: _, [] => false
  | token :: rest, character :: name => token.accepts character && matchTokens rest name

/-- The shell match of a name. -/
def fnmatchcase (name pattern : Text) : Bool := matchTokens (translate pattern 0) name

def globMagic : Text := ['*', '?', '[']

/-- Whether a text has a character with a meaning in patterns. -/
def hasMagic (text : Text) : Bool := text.any (globMagic.contains ·)

theorem translate_plain {pattern : Text} (plain : hasMagic pattern = false) :
    translate pattern 0 = pattern.map .literal := by
  induction pattern with
  | nil => rfl
  | cons character rest ih =>
    simp only [hasMagic, List.any_cons, Bool.or_eq_false_iff] at plain
    have ordinary : character ≠ '*' ∧ character ≠ '?' ∧ character ≠ '[' := by
      simpa [globMagic] using plain.1
    rw [translate.eq_def]
    split
    · contradiction
    · contradiction
    · simp_all
    · simp_all
    · simp_all
    · simp_all [hasMagic]

theorem matchTokens_literal (text name : Text) :
    matchTokens (text.map .literal) name = decide (name = text) := by
  induction text generalizing name with
  | nil => cases name <;> simp [matchTokens]
  | cons character rest ih =>
    cases name with
    | nil => simp [matchTokens]
    | cons head tail =>
      simp only [List.map_cons, matchTokens, Token.accepts, ih]
      by_cases same : character = head
      · simp [same]
      · simp [same, Ne.symm same]

theorem fnmatchcase_plain {name pattern : Text} (plain : hasMagic pattern = false) :
    fnmatchcase name pattern = decide (name = pattern) := by
  unfold fnmatchcase
  rw [translate_plain plain, matchTokens_literal]

def segments (path : Text) : List Text := path.splitOn '/'

def anySegments : Text := ['*', '*']

/-- Match the segments of a path with those of a glob. -/
def matchSegments : List Text → List Text → Bool
  | [], exact => exact.isEmpty
  | part :: parts, exact =>
    if part = anySegments then exact.tails.any (matchSegments parts)
    else match exact with
      | [] => false
      | segment :: rest => fnmatchcase segment part && matchSegments parts rest

def exactMatches (pattern exact : Text) : Bool := matchSegments (segments pattern) (segments exact)

def segmentDisjoint (left right : Text) : Bool :=
  if !hasMagic left && !hasMagic right then left != right
  else if !hasMagic left then !fnmatchcase left right
  else if !hasMagic right then !fnmatchcase right left
  else false

/-- Whether two segments at one place before any `**` are disjoint. -/
def disjointBefore : List Text → List Text → Bool
  | left :: lefts, right :: rights =>
    if left = anySegments ∨ right = anySegments then false
    else segmentDisjoint left right || disjointBefore lefts rights
  | _, _ => false

/-- Decide conservatively whether two globs can match one path. -/
def claimsOverlap (left right : Text) : Bool :=
  if left = right then true
  else if !hasMagic left && !hasMagic right then false
  else if !hasMagic left then exactMatches right left
  else if !hasMagic right then exactMatches left right
  else
    let lefts := segments left
    let rights := segments right
    if anySegments ∉ lefts ∧ anySegments ∉ rights then
      lefts.length == rights.length &&
        !(lefts.zip rights).any (Function.uncurry segmentDisjoint)
    else !disjointBefore lefts rights && !disjointBefore lefts.reverse rights.reverse

example : claimsOverlap "tools/**".toList "tools/lane.py".toList = true := by decide

theorem segmentDisjoint_comm (left right : Text) :
    segmentDisjoint left right = segmentDisjoint right left := by
  unfold segmentDisjoint
  cases hasMagic left <;> cases hasMagic right <;> simp [bne_comm]

theorem disjointBefore_comm (lefts rights : List Text) :
    disjointBefore lefts rights = disjointBefore rights lefts := by
  induction lefts generalizing rights with
  | nil => cases rights <;> rfl
  | cons left lefts ih =>
    cases rights with
    | nil => rfl
    | cons right rights =>
      simp only [disjointBefore, or_comm, segmentDisjoint_comm left right,
        ih rights]

theorem zip_disjoint_comm (lefts rights : List Text) :
    (lefts.zip rights).any (Function.uncurry segmentDisjoint) =
      (rights.zip lefts).any (Function.uncurry segmentDisjoint) := by
  induction lefts generalizing rights with
  | nil => cases rights <;> rfl
  | cons left lefts ih =>
    cases rights with
    | nil => rfl
    | cons right rights =>
      simp only [List.zip_cons_cons, List.any_cons, Function.uncurry_apply_pair,
        segmentDisjoint_comm left right, ih rights]

theorem claimsOverlap_comm (left right : Text) :
    claimsOverlap left right = claimsOverlap right left := by
  unfold claimsOverlap
  by_cases same : left = right
  · rw [if_pos same, if_pos same.symm]
  rw [if_neg same, if_neg (Ne.symm same)]
  cases hasMagic left <;> cases hasMagic right
  · rfl
  · rfl
  · rfl
  · simp only [Bool.not_true, Bool.and_self, Bool.false_eq_true, if_false,
      disjointBefore_comm (segments right), disjointBefore_comm (segments right).reverse,
      zip_disjoint_comm (segments right), and_comm, Bool.beq_comm, beq_eq_decide]

/-- What one segment of a glob stands for. -/
def Stands (part : Text) (piece : List Text) : Prop :=
  part = anySegments ∨ ∃ segment, piece = [segment] ∧ fnmatchcase segment part = true

/-- The segments of a glob cover a path piece by piece. -/
def Covers (parts path : List Text) : Prop :=
  ∃ pieces, List.Forall₂ Stands parts pieces ∧ path = pieces.flatten

variable {parts path : List Text}

theorem covers_of_matchSegments
    (matched : matchSegments parts path = true) : Covers parts path := by
  induction parts generalizing path with
  | nil =>
    have empty : path = [] := List.isEmpty_iff.mp matched
    exact ⟨[], .nil, empty⟩
  | cons part parts ih =>
    unfold matchSegments at matched
    split at matched
    case isTrue wild =>
      obtain ⟨rest, tail, matched⟩ := List.any_eq_true.mp matched
      obtain ⟨pieces, stands, flat⟩ := ih matched
      obtain ⟨piece, whole⟩ := (List.mem_tails _ _).mp tail
      refine ⟨piece :: pieces, .cons (.inl wild) stands, ?_⟩
      rw [List.flatten_cons, ← flat, whole]
    case isFalse =>
      split at matched
      · cases matched
      · rename_i segment rest
        obtain ⟨fits, matched⟩ := Bool.and_eq_true_iff.mp matched
        obtain ⟨pieces, stands, flat⟩ := ih matched
        refine ⟨[segment] :: pieces, .cons (.inr ⟨segment, rfl, fits⟩) stands, ?_⟩
        rw [List.flatten_cons, ← flat, List.singleton_append]

theorem matchSegments_of_covers (covers : Covers parts path) :
    matchSegments parts path = true := by
  obtain ⟨pieces, stands, flat⟩ := covers
  induction stands generalizing path with
  | nil =>
    rw [flat]
    rfl
  | cons first rest ih =>
    rename_i part piece parts pieces
    unfold matchSegments
    split
    case isTrue =>
      apply List.any_eq_true.mpr
      refine ⟨pieces.flatten, (List.mem_tails _ _).mpr ⟨piece, ?_⟩, ih rfl⟩
      rw [flat, List.flatten_cons]
    case isFalse named =>
      obtain ⟨segment, rfl, fits⟩ := first.resolve_left named
      rw [flat, List.flatten_cons, List.singleton_append]
      exact Bool.and_eq_true_iff.mpr ⟨fits, ih rfl⟩

/-- The match of segments decides whether they cover a path. -/
theorem matchSegments_iff :
    matchSegments parts path = true ↔ Covers parts path :=
  ⟨covers_of_matchSegments, matchSegments_of_covers⟩

theorem Covers.reverse (covers : Covers parts path) :
    Covers parts.reverse path.reverse := by
  obtain ⟨pieces, stands, flat⟩ := covers
  refine ⟨(pieces.map List.reverse).reverse, ?_, by rw [flat, List.reverse_flatten]⟩
  rw [List.forall₂_reverse_iff, List.forall₂_map_right_iff]
  apply stands.imp
  rintro part piece (wild | ⟨segment, rfl, fits⟩)
  · exact .inl wild
  · exact .inr ⟨segment, rfl, fits⟩

theorem Covers.head {part : Text} (covers : Covers (part :: parts) path)
    (named : part ≠ anySegments) :
    ∃ segment rest, path = segment :: rest ∧ fnmatchcase segment part = true ∧
      Covers parts rest := by
  obtain ⟨pieces, stands, flat⟩ := covers
  cases stands with
  | cons first rest =>
    rename_i piece pieces
    rcases first with wild | ⟨segment, rfl, fits⟩
    · exact absurd wild named
    · exact ⟨segment, pieces.flatten, flat, fits, pieces, rest, rfl⟩

/-- Patterns that match one segment are not disjoint. -/
theorem segmentDisjoint_eq_false {segment left right : Text}
    (leftFits : fnmatchcase segment left = true) (rightFits : fnmatchcase segment right = true) :
    segmentDisjoint left right = false := by
  unfold segmentDisjoint
  cases leftMagic : hasMagic left with
  | false =>
    rw [fnmatchcase_plain leftMagic, decide_eq_true_eq] at leftFits
    subst leftFits
    cases rightMagic : hasMagic right with
    | false =>
      rw [fnmatchcase_plain rightMagic, decide_eq_true_eq] at rightFits
      simp [rightFits]
    | true => simp [rightFits]
  | true =>
    cases rightMagic : hasMagic right with
    | false =>
      rw [fnmatchcase_plain rightMagic, decide_eq_true_eq] at rightFits
      subst rightFits
      simp [leftFits]
    | true => simp

theorem disjointBefore_eq_false {lefts rights : List Text} (left : Covers lefts path)
    (right : Covers rights path) : disjointBefore lefts rights = false := by
  induction lefts generalizing rights path with
  | nil => simp [disjointBefore]
  | cons part parts ih =>
    cases rights with
    | nil => simp [disjointBefore]
    | cons other others =>
      unfold disjointBefore
      split
      case isTrue => rfl
      case isFalse named =>
        obtain ⟨segment, rest, rfl, fits, covers⟩ := left.head (not_or.mp named).1
        obtain ⟨segment', rest', same, fits', covers'⟩ := right.head (not_or.mp named).2
        obtain ⟨rfl, rfl⟩ := List.cons.inj same
        rw [segmentDisjoint_eq_false fits fits', ih covers covers', Bool.or_self]

/-- Without `**` a glob has as many segments as the path, and no pair of segments of two
globs with a path in common is disjoint. -/
theorem Covers.aligned {lefts rights : List Text} (left : Covers lefts path)
    (right : Covers rights path) (leftNamed : anySegments ∉ lefts)
    (rightNamed : anySegments ∉ rights) :
    lefts.length = rights.length ∧
      (lefts.zip rights).any (Function.uncurry segmentDisjoint) = false := by
  induction lefts generalizing rights path with
  | nil =>
    cases rights with
    | nil => exact ⟨rfl, rfl⟩
    | cons other others =>
      obtain ⟨segment, rest, rfl, -, -⟩ :=
        right.head fun wild => rightNamed (wild ▸ List.mem_cons_self)
      obtain ⟨pieces, stands, flat⟩ := left
      cases stands
      cases flat
  | cons part parts ih =>
    obtain ⟨segment, rest, rfl, fits, covers⟩ :=
      left.head fun wild => leftNamed (wild ▸ List.mem_cons_self)
    cases rights with
    | nil =>
      obtain ⟨pieces, stands, flat⟩ := right
      cases stands
      cases flat
    | cons other others =>
      obtain ⟨segment', rest', same, fits', covers'⟩ :=
        right.head fun wild => rightNamed (wild ▸ List.mem_cons_self)
      obtain ⟨rfl, rfl⟩ := List.cons.inj same
      obtain ⟨lengths, apart⟩ := ih covers covers'
        (fun listed => leftNamed (List.mem_cons_of_mem _ listed))
        fun listed => rightNamed (List.mem_cons_of_mem _ listed)
      refine ⟨congrArg (· + 1) lengths, ?_⟩
      rw [List.zip_cons_cons, List.any_cons, apart, Function.uncurry_apply_pair,
        segmentDisjoint_eq_false fits fits', Bool.or_self]

theorem segments_injective {left right : Text} (same : segments left = segments right) :
    left = right := by
  calc
    left = ['/'].intercalate (left.splitOn '/') := (List.intercalate_splitOn '/').symm
    _ = ['/'].intercalate (right.splitOn '/') := congrArg _ same
    _ = right := List.intercalate_splitOn '/'

theorem hasMagic_anySegments : hasMagic anySegments = true := by decide

theorem hasMagic_segment {path segment : Text} (plain : hasMagic path = false)
    (listed : segment ∈ segments path) : hasMagic segment = false := by
  have whole : path = ['/'].intercalate (segments path) := (List.intercalate_splitOn '/').symm
  unfold hasMagic at plain ⊢
  rw [List.any_eq_false] at plain ⊢
  intro character present
  apply plain
  rw [whole, List.intercalate]
  obtain ⟨index, found⟩ := List.getElem?_of_mem listed
  have placed : (List.intersperse ['/'] (segments path))[2 * index]? = some segment := by
    rw [List.getElem?_intersperse_two_mul, found]
  exact List.mem_flatten.mpr ⟨segment, List.mem_of_getElem? placed, present⟩

theorem matchSegments_plain
    (plain : ∀ part ∈ parts, hasMagic part = false) (matched : matchSegments parts path = true) :
    path = parts := by
  induction parts generalizing path with
  | nil => exact List.isEmpty_iff.mp matched
  | cons part parts ih =>
    have bare := plain part List.mem_cons_self
    have named : part ≠ anySegments := by
      rintro rfl
      rw [hasMagic_anySegments] at bare
      cases bare
    unfold matchSegments at matched
    rw [if_neg named] at matched
    split at matched
    · cases matched
    · rename_i segment rest
      obtain ⟨fits, matched⟩ := Bool.and_eq_true_iff.mp matched
      rw [fnmatchcase_plain bare, decide_eq_true_eq] at fits
      have rest := ih
        (fun other listed => plain other (List.mem_cons_of_mem _ listed)) matched
      rw [fits, rest]

theorem exactMatches_plain {pattern exact : Text} (plain : hasMagic pattern = false)
    (matched : exactMatches pattern exact = true) : exact = pattern :=
  segments_injective (matchSegments_plain (fun _ listed => hasMagic_segment plain listed) matched)

/-- Two globs that match one path overlap. -/
theorem claimsOverlap_of_common {left right path : Text}
    (leftMatches : exactMatches left path = true) (rightMatches : exactMatches right path = true) :
    claimsOverlap left right = true := by
  unfold claimsOverlap
  split
  · rfl
  rename_i different
  cases leftMagic : hasMagic left with
  | false =>
    have itself := exactMatches_plain leftMagic leftMatches
    subst itself
    cases rightMagic : hasMagic right with
    | false => exact absurd (exactMatches_plain rightMagic rightMatches) different
    | true => simpa using rightMatches
  | true =>
    cases rightMagic : hasMagic right with
    | false =>
      have itself := exactMatches_plain rightMagic rightMatches
      subst itself
      simpa using leftMatches
    | true =>
      have leftCovers := covers_of_matchSegments leftMatches
      have rightCovers := covers_of_matchSegments rightMatches
      simp only [Bool.not_true, Bool.and_self, Bool.false_eq_true, if_false]
      split
      case isTrue named =>
        obtain ⟨lengths, apart⟩ := leftCovers.aligned rightCovers named.1 named.2
        rw [lengths, apart, beq_self_eq_true, Bool.not_false, Bool.and_self]
      case isFalse =>
        rw [disjointBefore_eq_false leftCovers rightCovers,
          disjointBefore_eq_false leftCovers.reverse rightCovers.reverse, Bool.not_false,
          Bool.and_self]

/-- The detection is sound for every path that both globs cover, and symmetric. -/
theorem claimsOverlap_detects (left right : Text) :
    ((∃ path, Covers (segments left) (segments path) ∧ Covers (segments right) (segments path)) →
        claimsOverlap left right = true) ∧
      claimsOverlap left right = claimsOverlap right left := by
  constructor
  · rintro ⟨path, leftCovers, rightCovers⟩
    exact claimsOverlap_of_common (matchSegments_of_covers leftCovers)
      (matchSegments_of_covers rightCovers)
  · exact claimsOverlap_comm left right

/-- Two globs around `**` that both cover one path. -/
theorem docs_overlap :
    claimsOverlap ['d', '/', '*', '*', '/', 'x', '*'] ['d', '/', '?', '/', 'x', 'y'] = true := by
  apply (claimsOverlap_detects _ _).1
  refine ⟨['d', '/', 'a', '/', 'x', 'y'], ?_, ?_⟩
  · apply covers_of_matchSegments
    decide
  · apply covers_of_matchSegments
    decide

end TradingEngine.Lanes
