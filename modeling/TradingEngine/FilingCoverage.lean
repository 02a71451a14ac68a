import TradingEngine.FilingExcerpts

/-!
# What the excerpts of a filing account for

The regions of a filing are the sections of its primary text and the whole text of its
exhibit. What is entered for a region is a piece: at most one excerpt, then at most one
omission, which tile the region. A region without an excerpt is one in which no line break
lies within what is left of the budget.
-/

namespace TradingEngine.Filings

open Lanes (Text)

/-- Consecutive nonempty intervals between two positions. -/
inductive Tiles : ℕ → List (ℕ × ℕ) → ℕ → Prop where
  | nil (position : ℕ) : Tiles position [] position
  | cons {start middle stop : ℕ} {rest : List (ℕ × ℕ)} (nonempty : start < middle)
      (tail : Tiles middle rest stop) : Tiles start ((start, middle) :: rest) stop

namespace Tiles

variable {start stop : ℕ} {intervals : List (ℕ × ℕ)}

theorem start_le_stop (tiles : Tiles start intervals stop) : start ≤ stop := by
  induction tiles with
  | nil position => exact le_rfl
  | cons nonempty tail ih => omega

theorem exists_mem (tiles : Tiles start intervals stop) {position : ℕ} (above : start ≤ position)
    (below : position < stop) :
    ∃ interval ∈ intervals, interval.1 ≤ position ∧ position < interval.2 := by
  induction tiles with
  | nil bound => omega
  | @cons start middle stop rest nonempty tail ih =>
    by_cases first : position < middle
    · exact ⟨(start, middle), List.mem_cons_self, above, first⟩
    · obtain ⟨interval, listed, inside⟩ := ih (by omega) below
      exact ⟨interval, List.mem_cons_of_mem _ listed, inside⟩

theorem bounds (tiles : Tiles start intervals stop) {interval : ℕ × ℕ}
    (listed : interval ∈ intervals) : start ≤ interval.1 ∧ interval.2 ≤ stop := by
  induction tiles with
  | nil position => cases listed
  | cons nonempty tail ih =>
    have reached := tail.start_le_stop
    rcases List.mem_cons.mp listed with rfl | later
    · exact ⟨le_rfl, reached⟩
    · have inside := ih later
      exact ⟨by omega, inside.2⟩

theorem nonempty (tiles : Tiles start intervals stop) {interval : ℕ × ℕ}
    (listed : interval ∈ intervals) : interval.1 < interval.2 := by
  induction tiles with
  | nil position => cases listed
  | cons nonempty tail ih =>
    rcases List.mem_cons.mp listed with rfl | later
    · exact nonempty
    · exact ih later

theorem ordered (tiles : Tiles start intervals stop) :
    intervals.Pairwise fun earlier later => earlier.2 ≤ later.1 := by
  induction tiles with
  | nil position => exact List.Pairwise.nil
  | cons nonempty tail ih =>
    exact List.pairwise_cons.mpr ⟨fun later listed => (tail.bounds listed).1, ih⟩

end Tiles

theorem slice_length (text : Text) (start stop : ℕ) :
    (slice text start stop).length = min stop text.length - start := by
  simp [slice]

theorem slice_getElem? (text : Text) (start stop index : ℕ) (inside : start + index < stop) :
    (slice text start stop)[index]? = text[start + index]? := by
  simp [slice, inside]

theorem lastBreak_lt {text : Text} {index : ℕ} (found : lastBreak text = some index) :
    index < text.length := by
  induction text generalizing index with
  | nil => cases found
  | cons character rest ih =>
    cases later : lastBreak rest with
    | some next =>
      have bound := ih later
      simp only [lastBreak, later, Option.some.injEq] at found
      simp only [List.length_cons]
      omega
    | none =>
      simp only [lastBreak, later] at found
      split at found
      · cases found
        simp
      · cases found

theorem le_lastBreak {text : Text} {index : ℕ} (lineBreak : text[index]? = some '\n') :
    ∃ last, lastBreak text = some last ∧ index ≤ last := by
  induction text generalizing index with
  | nil => simp at lineBreak
  | cons character rest ih =>
    cases index with
    | zero =>
      have first : character = '\n' := by simpa using lineBreak
      cases later : lastBreak rest with
      | some next => exact ⟨next + 1, by simp [lastBreak, later], Nat.zero_le _⟩
      | none => exact ⟨0, by simp [lastBreak, later, first], le_rfl⟩
    | succ index =>
      obtain ⟨last, found, within⟩ := ih (by simpa using lineBreak)
      exact ⟨last + 1, by simp [lastBreak, found], by omega⟩

variable {text : Text} {start stop budget : ℕ}

theorem rfindBreak_bounds {low high position : ℕ}
    (found : rfindBreak text low high = some position) : low ≤ position ∧ position < high := by
  obtain ⟨index, last, rfl⟩ := Option.map_eq_some_iff.mp found
  have inside := lastBreak_lt last
  rw [slice_length] at inside
  omega

theorem le_rfindBreak {low high position : ℕ} (above : low ≤ position) (below : position < high)
    (lineBreak : text[position]? = some '\n') :
    ∃ last, rfindBreak text low high = some last ∧ position ≤ last := by
  have shifted : low + (position - low) = position := by omega
  have within : (slice text low high)[position - low]? = some '\n' := by
    rw [slice_getElem? text low high _ (by omega), shifted, lineBreak]
  obtain ⟨last, found, atMost⟩ := le_lastBreak within
  exact ⟨low + last, by simp [rfindBreak, found], by omega⟩

theorem excerptStop_le (ordered : start ≤ stop) : excerptStop text start stop budget ≤ stop := by
  unfold excerptStop
  split
  · split
    · rename_i found
      have bounds := rfindBreak_bounds found
      omega
    · exact ordered
  · exact le_rfl

theorem start_le_excerptStop (ordered : start ≤ stop) :
    start ≤ excerptStop text start stop budget := by
  unfold excerptStop
  split
  · split
    · exact le_max_left _ _
    · exact le_rfl
  · exact ordered

theorem excerptStop_within : excerptStop text start stop budget - start ≤ budget := by
  unfold excerptStop
  split
  · split
    · rename_i found
      have bounds := rfindBreak_bounds found
      omega
    · omega
  · omega

/-- An excerpt is empty only when its part of the document is, or when no line break after the
first character lies within the budget. -/
theorem excerptStop_eq_start (nonempty : start < stop)
    (empty : excerptStop text start stop budget = start) :
    budget < stop - start ∧
      ∀ position, start < position → position ≤ start + budget →
        text[position]? ≠ some '\n' := by
  unfold excerptStop at empty
  split at empty
  case isFalse fits => omega
  case isTrue cut =>
    refine ⟨cut, fun position after within lineBreak => ?_⟩
    obtain ⟨last, found, atMost⟩ :
        ∃ last, rfindBreak text start (start + budget + 1) = some last ∧ position ≤ last :=
      le_rfindBreak after.le (Nat.lt_succ_of_le within) lineBreak
    rw [found] at empty
    have kept : max start last = start := empty
    omega

/-- A part of a selected document that the excerpts answer for. -/
structure Region where
  document : Normalized
  start : ℕ
  stop : ℕ

def Region.whole (document : Normalized) : Region := ⟨document, 0, document.text.length⟩

/-- The sections of the recognised headings, each up to the next heading or the end. -/
def sections (document : Normalized) : List Heading → List Region
  | [] => []
  | heading :: rest =>
    if heading.item ∉ events then sections document rest
    else ⟨document, heading.start, sectionStop document rest⟩ :: sections document rest

/-- What is entered for a region. -/
structure Piece where
  region : Region
  spans : List Span
  omitted : List Omission

namespace Piece

variable (piece : Piece)

def intervals : List (ℕ × ℕ) :=
  piece.spans.map (fun span => (span.start, span.stop)) ++
    piece.omitted.map fun omission => (omission.start, omission.stop)

/-- The number of characters in a piece's excerpts. -/
def spent : ℕ := (piece.spans.map fun span => span.text.length).sum

/-- A piece accounts for its region within a budget. -/
structure Accounted (budget : ℕ) : Prop where
  oneSpan : piece.spans.length ≤ 1
  oneOmission : piece.omitted.length ≤ 1
  tiles : Tiles piece.region.start piece.intervals piece.region.stop
  exact : ∀ span ∈ piece.spans, span.filename = piece.region.document.filename ∧
    span.text = slice piece.region.document.text span.start span.stop
  named : ∀ omission ∈ piece.omitted, omission.filename = piece.region.document.filename
  dropped : piece.spans = [] → piece.region.start < piece.region.stop →
    budget < piece.region.stop - piece.region.start ∧
      ∀ position, piece.region.start < position → position ≤ piece.region.start + budget →
        piece.region.document.text[position]? ≠ some '\n'

end Piece

/-- Pieces that account for their regions one after another out of one budget. -/
structure AccountedWithin (budget : ℕ) (pieces : List Piece) : Prop where
  total : (pieces.map Piece.spent).sum ≤ budget
  each : ∀ before piece after, pieces = before ++ piece :: after →
    piece.Accounted (budget - (before.map Piece.spent).sum)

def World.pieceOf (world : World) (sourceSha256 : Text) (region : Region) (budget : ℕ) : Piece :=
  let span := world.excerpt region.document region.start region.stop budget sourceSha256
  { region
    spans := if span.text = [] then [] else [span]
    omitted := if span.stop < region.stop then [⟨span.filename, span.stop, region.stop⟩] else [] }

def World.piecesOf (world : World) (sourceSha256 : Text) : List Region → ℕ → List Piece
  | [], _ => []
  | region :: rest, budget =>
    let piece := world.pieceOf sourceSha256 region budget
    piece :: world.piecesOf sourceSha256 rest (budget - piece.spent)

variable {world : World} {sourceSha256 : Text} {region : Region}

/-- Where the excerpt of a region ends. -/
def Region.cut (region : Region) (budget : ℕ) : ℕ :=
  excerptStop region.document.text region.start region.stop budget

def World.excerptOf (world : World) (sourceSha256 : Text) (region : Region) (budget : ℕ) : Span :=
  world.excerpt region.document region.start region.stop budget sourceSha256

theorem pieceOf_spans (world : World) (sourceSha256 : Text) (region : Region) (budget : ℕ) :
    (world.pieceOf sourceSha256 region budget).spans =
      if (world.excerptOf sourceSha256 region budget).text = [] then []
      else [world.excerptOf sourceSha256 region budget] := rfl

theorem pieceOf_omitted (world : World) (sourceSha256 : Text) (region : Region) (budget : ℕ) :
    (world.pieceOf sourceSha256 region budget).omitted =
      if region.cut budget < region.stop then
        [⟨region.document.filename, region.cut budget, region.stop⟩] else [] := rfl

section piece

variable (world sourceSha256 budget) (ordered : region.start ≤ region.stop)
  (placed : region.stop ≤ region.document.text.length)

include ordered placed

theorem excerptOf_length :
    (world.excerptOf sourceSha256 region budget).text.length =
      region.cut budget - region.start := by
  have within : region.cut budget ≤ region.stop := excerptStop_le ordered
  have kept := slice_length region.document.text region.start (region.cut budget)
  rw [min_eq_left (within.trans placed)] at kept
  exact kept

theorem excerptOf_text_eq_nil :
    (world.excerptOf sourceSha256 region budget).text = [] ↔
      region.cut budget = region.start := by
  have atLeast : region.start ≤ region.cut budget := start_le_excerptStop ordered
  rw [← List.length_eq_zero_iff, excerptOf_length _ _ _ ordered placed]
  omega

theorem pieceOf_spent : (world.pieceOf sourceSha256 region budget).spent ≤ budget := by
  have within : region.cut budget - region.start ≤ budget := excerptStop_within
  have length := excerptOf_length budget world sourceSha256 ordered placed
  rw [Piece.spent, pieceOf_spans]
  split
  · exact Nat.zero_le _
  · rwa [List.map_singleton, List.sum_singleton, length]

theorem pieceOf_tiles :
    Tiles region.start (world.pieceOf sourceSha256 region budget).intervals region.stop := by
  have atLeast : region.start ≤ region.cut budget := start_le_excerptStop ordered
  have within : region.cut budget ≤ region.stop := excerptStop_le ordered
  have empty := excerptOf_text_eq_nil budget world sourceSha256 ordered placed
  -- The omission, if there is one, runs from the end of the excerpt to that of the region.
  have rest : Tiles (region.cut budget)
      ((world.pieceOf sourceSha256 region budget).omitted.map fun omission =>
        (omission.start, omission.stop)) region.stop := by
    rw [pieceOf_omitted]
    by_cases omits : region.cut budget < region.stop
    · rw [if_pos omits]
      exact .cons omits (.nil _)
    · rw [if_neg omits, le_antisymm within (not_lt.mp omits)]
      exact .nil _
  rw [Piece.intervals]
  by_cases dropped : (world.excerptOf sourceSha256 region budget).text = []
  · have noSpans : (world.pieceOf sourceSha256 region budget).spans = [] := by
      rw [pieceOf_spans, if_pos dropped]
    rw [empty.mp dropped] at rest
    simpa only [noSpans, List.map_nil, List.nil_append] using rest
  · have oneSpan : (world.pieceOf sourceSha256 region budget).spans =
        [world.excerptOf sourceSha256 region budget] := by
      rw [pieceOf_spans, if_neg dropped]
    have moved : region.start < region.cut budget :=
      lt_of_le_of_ne atLeast fun same => dropped (empty.mpr same.symm)
    rw [oneSpan]
    exact Tiles.cons moved rest

theorem pieceOf_accounted : (world.pieceOf sourceSha256 region budget).Accounted budget where
  oneSpan := by
    rw [pieceOf_spans]
    split <;> simp
  oneOmission := by
    rw [pieceOf_omitted]
    split <;> simp
  tiles := pieceOf_tiles _ _ _ ordered placed
  exact span listed := by
    rw [pieceOf_spans] at listed
    split at listed
    · cases listed
    · rw [List.mem_singleton.mp listed]
      exact ⟨rfl, rfl⟩
  named omission listed := by
    rw [pieceOf_omitted] at listed
    split at listed
    · rw [List.mem_singleton.mp listed]
      rfl
    · cases listed
  dropped none nonempty := by
    have empty : (world.excerptOf sourceSha256 region budget).text = [] := by
      by_contra kept
      simp [pieceOf_spans, kept] at none
    exact excerptStop_eq_start nonempty
      ((excerptOf_text_eq_nil budget world sourceSha256 ordered placed).mp empty)

end piece

theorem piecesOf_regions (regions : List Region) (budget : ℕ) :
    (world.piecesOf sourceSha256 regions budget).map Piece.region = regions := by
  induction regions generalizing budget with
  | nil => rfl
  | cons region rest ih =>
    rw [World.piecesOf, List.map_cons, ih]
    rfl

theorem piecesOf_accounted {regions : List Region}
    (placed : ∀ region ∈ regions, region.start ≤ region.stop ∧
      region.stop ≤ region.document.text.length) (budget : ℕ) :
    AccountedWithin budget (world.piecesOf sourceSha256 regions budget) := by
  induction regions generalizing budget with
  | nil => exact ⟨Nat.zero_le _, fun before piece after split => by simp [World.piecesOf] at split⟩
  | cons region rest ih =>
    obtain ⟨ordered, inside⟩ := placed region List.mem_cons_self
    have spent : (world.pieceOf sourceSha256 region budget).spent ≤ budget :=
      pieceOf_spent _ _ _ ordered inside
    obtain ⟨total, each⟩ := ih
      (fun later listed => placed later (List.mem_cons_of_mem _ listed))
      (budget - (world.pieceOf sourceSha256 region budget).spent)
    constructor
    · rw [World.piecesOf, List.map_cons, List.sum_cons]
      omega
    · intro before piece after split
      rw [World.piecesOf] at split
      cases before with
      | nil =>
        obtain ⟨rfl, -⟩ := List.cons.inj split
        exact pieceOf_accounted _ _ _ ordered inside
      | cons first before =>
        obtain ⟨rfl, later⟩ := List.cons.inj split
        have accounted := each before piece after later
        rwa [Nat.sub_sub, ← List.sum_cons, ← List.map_cons] at accounted

theorem enter_eq (world : World) (sourceSha256 : Text) (gathered : Gathered) (region : Region)
    (budget : ℕ) :
    gathered.enter (world.excerptOf sourceSha256 region budget) region.stop =
      let piece := world.pieceOf sourceSha256 region budget
      ⟨gathered.spans ++ piece.spans, gathered.omitted ++ piece.omitted,
        gathered.remaining - piece.spent⟩ := by
  have omits : (if region.cut budget < region.stop then
      gathered.omitted ++ [⟨region.document.filename, region.cut budget, region.stop⟩]
      else gathered.omitted) =
      gathered.omitted ++ (world.pieceOf sourceSha256 region budget).omitted := by
    rw [pieceOf_omitted]
    split
    · rfl
    · rw [List.append_nil]
  by_cases empty : (world.excerptOf sourceSha256 region budget).text = []
  · have spans : (world.pieceOf sourceSha256 region budget).spans = [] := if_pos empty
    rw [Gathered.enter, if_pos empty]
    simp [Piece.spent, spans, ← omits]
    rfl
  · have spans : (world.pieceOf sourceSha256 region budget).spans =
        [world.excerptOf sourceSha256 region budget] := if_neg empty
    rw [Gathered.enter, if_neg empty]
    simp [Piece.spent, spans, ← omits]
    rfl

theorem gatherSections_eq (world : World) (sourceSha256 : Text) (document : Normalized)
    (headings : List Heading) (gathered : Gathered) :
    world.gatherSections document sourceSha256 headings gathered =
      let pieces := world.piecesOf sourceSha256 (sections document headings) gathered.remaining
      ⟨gathered.spans ++ pieces.flatMap Piece.spans,
        gathered.omitted ++ pieces.flatMap Piece.omitted,
        gathered.remaining - (pieces.map Piece.spent).sum⟩ := by
  induction headings generalizing gathered with
  | nil => simp [World.gatherSections, sections, World.piecesOf]
  | cons heading rest ih =>
    by_cases recognised : heading.item ∈ events
    · have first : world.gatherSections document sourceSha256 (heading :: rest) gathered =
          world.gatherSections document sourceSha256 rest (gathered.enter
            (world.excerptOf sourceSha256 ⟨document, heading.start, sectionStop document rest⟩
              gathered.remaining) (sectionStop document rest)) :=
        if_neg (not_not.mpr recognised)
      rw [first, enter_eq world sourceSha256 gathered
        ⟨document, heading.start, sectionStop document rest⟩, ih, sections,
        if_neg (not_not.mpr recognised)]
      simp [World.piecesOf, Nat.sub_sub]
    · rw [World.gatherSections, if_pos recognised, sections, if_pos recognised]
      exact ih gathered

/-- The regions of the exhibit. -/
def Selection.exhibitRegions (selection : Selection) : List Region :=
  selection.exhibit.toList.map Region.whole

theorem gatherExhibit_eq (world : World) (selection : Selection) (gathered : Gathered) :
    let pieces := world.piecesOf selection.sourceSha256 selection.exhibitRegions exhibitBudget
    (world.gatherExhibit selection gathered).spans =
        gathered.spans ++ pieces.flatMap Piece.spans ∧
      (world.gatherExhibit selection gathered).omitted =
        gathered.omitted ++ pieces.flatMap Piece.omitted := by
  cases found : selection.exhibit with
  | none => simp [World.gatherExhibit, Selection.exhibitRegions, World.piecesOf, found]
  | some exhibit =>
    have entered := enter_eq world selection.sourceSha256 gathered (Region.whole exhibit)
      exhibitBudget
    have whole : selection.exhibitRegions = [Region.whole exhibit] := by
      simp [Selection.exhibitRegions, found]
    simp only [World.gatherExhibit, found, whole, World.piecesOf, List.flatMap_cons,
      List.flatMap_nil, List.append_nil]
    exact ⟨congrArg Gathered.spans entered, congrArg Gathered.omitted entered⟩

theorem headingsFrom_bounds (world : World) {position passed : ℕ} {lineStart : Bool} {text : Text}
    {heading : Heading} (listed : heading ∈ world.headingsFrom position lineStart passed text) :
    position ≤ heading.start ∧ heading.start < position + text.length := by
  induction text generalizing position passed lineStart with
  | nil => simp [World.headingsFrom] at listed
  | cons character rest ih =>
    rw [List.length_cons]
    cases passed with
    | succ passed =>
      have bounds := ih listed
      omega
    | zero =>
      rw [World.headingsFrom] at listed
      split at listed
      · rcases List.mem_cons.mp listed with rfl | later
        · exact ⟨le_rfl, by dsimp only; omega⟩
        · have bounds := ih later
          omega
      · have bounds := ih listed
        omega

theorem headingsFrom_ordered (world : World) (position passed : ℕ) (lineStart : Bool)
    (text : Text) :
    (world.headingsFrom position lineStart passed text).Pairwise
      fun earlier later => earlier.start < later.start := by
  induction text generalizing position passed lineStart with
  | nil => simp [World.headingsFrom]
  | cons character rest ih =>
    cases passed with
    | succ passed => exact ih _ _ _
    | zero =>
      rw [World.headingsFrom]
      split
      · refine List.pairwise_cons.mpr ⟨fun later listed => ?_, ih _ _ _⟩
        have bounds := headingsFrom_bounds world listed
        dsimp only
        omega
      · exact ih _ _ _

variable {document : Normalized}

theorem le_sectionStop {headings : List Heading} {bound : ℕ}
    (later : ∀ heading ∈ headings, bound ≤ heading.start) (short : bound ≤ document.text.length) :
    bound ≤ sectionStop document headings := by
  cases headings with
  | nil => exact short
  | cons next rest => exact later next List.mem_cons_self

theorem sections_bounds {headings : List Heading} {region : Region}
    (ordered : headings.Pairwise fun earlier later => earlier.start < later.start)
    (inside : ∀ heading ∈ headings, heading.start < document.text.length)
    (listed : region ∈ sections document headings) :
    region.document = document ∧ region.start < region.stop ∧
      region.stop ≤ document.text.length ∧ ∃ heading ∈ headings, region.start = heading.start := by
  induction headings with
  | nil => cases listed
  | cons heading rest ih =>
    obtain ⟨before, ordered⟩ := List.pairwise_cons.mp ordered
    have laterInside : ∀ later ∈ rest, later.start < document.text.length :=
      fun later member => inside later (List.mem_cons_of_mem _ member)
    have deeper : region ∈ sections document rest → region.document = document ∧
        region.start < region.stop ∧ region.stop ≤ document.text.length ∧
        ∃ heading' ∈ heading :: rest, region.start = heading'.start := by
      intro later
      obtain ⟨same, nonempty, placed, found, member, start⟩ :=
        ih ordered laterInside later
      exact ⟨same, nonempty, placed, found, List.mem_cons_of_mem _ member, start⟩
    rw [sections] at listed
    split at listed
    · exact deeper listed
    · rcases List.mem_cons.mp listed with rfl | later
      · refine ⟨rfl, ?_, ?_, heading, List.mem_cons_self, rfl⟩
        · exact le_sectionStop before (inside heading List.mem_cons_self)
        · cases rest with
          | nil => exact le_rfl
          | cons next rest => exact (laterInside next List.mem_cons_self).le
      · exact deeper later

theorem sections_ordered {headings : List Heading}
    (ordered : headings.Pairwise fun earlier later => earlier.start < later.start)
    (inside : ∀ heading ∈ headings, heading.start < document.text.length) :
    (sections document headings).Pairwise fun earlier later => earlier.stop ≤ later.start := by
  induction headings with
  | nil => exact List.Pairwise.nil
  | cons heading rest ih =>
    obtain ⟨before, ordered⟩ := List.pairwise_cons.mp ordered
    have laterInside : ∀ later ∈ rest, later.start < document.text.length :=
      fun later member => inside later (List.mem_cons_of_mem _ member)
    rw [sections]
    split
    · exact ih ordered laterInside
    · refine List.pairwise_cons.mpr
        ⟨fun later listed => ?_, ih ordered laterInside⟩
      obtain ⟨-, -, -, found, member, start⟩ := sections_bounds ordered laterInside listed
      rw [start]
      cases rest with
      | nil => cases member
      | cons next rest =>
        rcases List.mem_cons.mp member with rfl | deeper
        · exact le_rfl
        · exact ((List.pairwise_cons.mp ordered).1 found deeper).le

theorem headings_inside (world : World) {text : Text} {heading : Heading}
    (listed : heading ∈ world.headings text) : heading.start < text.length := by
  have bounds := headingsFrom_bounds world listed
  omega

/-- A position of a region that none of its excerpts holds. -/
def Piece.Omits (piece : Piece) (position : ℕ) : Prop :=
  (piece.region.start ≤ position ∧ position < piece.region.stop) ∧
    ∀ span ∈ piece.spans, ¬(span.start ≤ position ∧ position < span.stop)

/-- Something is entered as omitted exactly when some character is in no excerpt. -/
theorem Piece.Accounted.omitted_ne_nil {piece : Piece} (accounted : piece.Accounted budget) :
    piece.omitted ≠ [] ↔ ∃ position, piece.Omits position := by
  constructor
  · intro some
    obtain ⟨omission, listed⟩ := List.exists_mem_of_ne_nil _ some
    have tile : (omission.start, omission.stop) ∈
        piece.omitted.map fun omission => (omission.start, omission.stop) :=
      List.mem_map_of_mem (f := fun omission => (omission.start, omission.stop)) listed
    have nonempty : omission.start < omission.stop :=
      accounted.tiles.nonempty (List.mem_append_right _ tile)
    have inside : piece.region.start ≤ omission.start ∧ omission.stop ≤ piece.region.stop :=
      accounted.tiles.bounds (List.mem_append_right _ tile)
    refine ⟨omission.start, ⟨inside.1, nonempty.trans_le inside.2⟩, fun span kept holds => ?_⟩
    have apart : span.stop ≤ omission.start :=
      (List.pairwise_append.mp accounted.tiles.ordered).2.2 (span.start, span.stop)
        (List.mem_map_of_mem kept) _ tile
    omega
  · rintro ⟨position, ⟨above, below⟩, outside⟩ none
    obtain ⟨interval, listed, inside⟩ := accounted.tiles.exists_mem above below
    simp only [Piece.intervals, none, List.map_nil, List.append_nil] at listed
    obtain ⟨span, kept, rfl⟩ := List.mem_map.mp listed
    exact outside span kept inside

theorem AccountedWithin.accounted {pieces : List Piece} (within : AccountedWithin budget pieces)
    {piece : Piece} (listed : piece ∈ pieces) : ∃ left, piece.Accounted left := by
  obtain ⟨before, after, split⟩ := List.append_of_mem listed
  exact ⟨_, within.each before piece after split⟩

/-- Pieces that account for a filing, one for each section and one for the exhibit. -/
structure Filing.AccountedBy (filing : Filing) (world : World) (selection : Selection)
    (primary exhibit : List Piece) : Prop where
  eachSection : primary.map Piece.region =
    sections selection.primary (world.headings selection.primary.text)
  eachExhibit : exhibit.map Piece.region = selection.exhibitRegions
  apart : (primary.map Piece.region).Pairwise fun earlier later => earlier.stop ≤ later.start
  primaryWithin : AccountedWithin primaryBudget primary
  exhibitWithin : AccountedWithin exhibitBudget exhibit
  spans : filing.spans = (primary ++ exhibit).flatMap Piece.spans
  omitted : filing.omittedSpans = (primary ++ exhibit).flatMap Piece.omitted
  truncated : filing.truncated = true ↔
    ∃ piece ∈ primary ++ exhibit, ∃ position, piece.Omits position

/-- What is returned for an accepted submission accounts for the documents it selects. -/
theorem normalizeSubmission_accounts (world : World) (submission : Submission) (filing : Filing)
    (accepted : world.normalizeSubmission submission = .ok filing) :
    ∃ selection, world.select submission = .ok selection ∧
      ∃ primary exhibit, filing.AccountedBy world selection primary exhibit := by
  cases selected : world.select submission with
  | error error =>
    rw [World.normalizeSubmission, selected] at accepted
    cases accepted
  | ok selection =>
    rw [World.normalizeSubmission, selected] at accepted
    have made : world.filing submission selection = filing := Except.ok.inj accepted
    let headings := world.headings selection.primary.text
    have ordered : headings.Pairwise fun earlier later => earlier.start < later.start :=
      headingsFrom_ordered world 0 0 true selection.primary.text
    have inside : ∀ heading ∈ headings, heading.start < selection.primary.text.length :=
      fun heading listed => headings_inside world listed
    let primary := world.piecesOf selection.sourceSha256 (sections selection.primary headings)
      primaryBudget
    let exhibit := world.piecesOf selection.sourceSha256 selection.exhibitRegions exhibitBudget
    have primaryRegions : primary.map Piece.region = sections selection.primary headings :=
      piecesOf_regions _ _
    have primaryAccounted : AccountedWithin primaryBudget primary := by
      refine piecesOf_accounted (fun region listed => ?_) primaryBudget
      obtain ⟨same, nonempty, placed, -⟩ := sections_bounds ordered inside listed
      exact ⟨nonempty.le, by rwa [same]⟩
    have exhibitAccounted : AccountedWithin exhibitBudget exhibit := by
      refine piecesOf_accounted (fun region listed => ?_) exhibitBudget
      obtain ⟨document, -, rfl⟩ := List.mem_map.mp listed
      exact ⟨Nat.zero_le _, le_rfl⟩
    let first := world.gatherSections selection.primary selection.sourceSha256 headings
      ⟨[], [], primaryBudget⟩
    have gathered := gatherSections_eq world selection.sourceSha256 selection.primary headings
      ⟨[], [], primaryBudget⟩
    obtain ⟨allSpans, allOmitted⟩ := gatherExhibit_eq world selection first
    have spans : filing.spans = (primary ++ exhibit).flatMap Piece.spans := by
      rw [← made, List.flatMap_append]
      exact allSpans.trans (congrArg (· ++ _) (congrArg Gathered.spans gathered))
    have omitted : filing.omittedSpans = (primary ++ exhibit).flatMap Piece.omitted := by
      rw [← made, List.flatMap_append]
      exact allOmitted.trans (congrArg (· ++ _) (congrArg Gathered.omitted gathered))
    refine ⟨selection, rfl, primary, exhibit, ?_⟩
    refine ⟨primaryRegions, piecesOf_regions _ _, ?_, primaryAccounted, exhibitAccounted,
      spans, omitted, ?_⟩
    · rw [primaryRegions]
      exact sections_ordered ordered inside
    · have flag : filing.truncated = true ↔ filing.omittedSpans ≠ [] := by
        rw [← made]
        exact decide_eq_true_iff
      have accounted : ∀ piece ∈ primary ++ exhibit, ∃ left, piece.Accounted left := by
        intro piece listed
        rcases List.mem_append.mp listed with first | second
        · exact primaryAccounted.accounted first
        · exact exhibitAccounted.accounted second
      rw [flag, omitted, ne_eq, List.flatMap_eq_nil_iff]
      constructor
      · intro some
        push Not at some
        obtain ⟨piece, listed, omits⟩ := some
        obtain ⟨left, known⟩ := accounted piece listed
        exact ⟨piece, listed, known.omitted_ne_nil.mp omits⟩
      · rintro ⟨piece, listed, omits⟩ none
        obtain ⟨left, known⟩ := accounted piece listed
        exact known.omitted_ne_nil.mpr omits (none piece listed)

section longLine

def asciiBytes (text : String) : Bytes := text.toList.map fun character => character.toNat.toUInt8

/-- The heading of item 2.02 and a name of that many letters, on one line. -/
def lineBody (letters : ℕ) : Bytes :=
  0x49 :: 0x74 :: 0x65 :: 0x6D :: 0x20 :: 0x32 :: 0x2E :: 0x30 :: 0x32 ::
    List.replicate letters 0x78

def lineText (letters : ℕ) : Text :=
  'I' :: 't' :: 'e' :: 'm' :: ' ' :: '2' :: '.' :: '0' :: '2' :: List.replicate letters 'x'

def lineEnvelope (letters : ℕ) : Bytes :=
  asciiBytes ("<SEC-DOCUMENT>\n<SEC-HEADER>\n<ACCEPTANCE-DATETIME>20260925163000\n" ++
    "ACCESSION NUMBER: 0000099999-26-000001\nCENTRAL INDEX KEY: 0000099999\n</SEC-HEADER>\n" ++
    "<DOCUMENT>\n<TYPE>8-K\n<SEQUENCE>1\n<FILENAME>a.txt\n<TEXT>\n") ++ lineBody letters ++
    asciiBytes "\n</TEXT>\n</DOCUMENT>\n</SEC-DOCUMENT>\n"

def lineSubmission (letters : ℕ) : Submission :=
  { raw := lineEnvelope letters, cik := "99999".toList
    accession := "0000099999-26-000001".toList
    receivedAt := "2026-09-25T21:00:00+00:00".toList }

def lineDocument (letters : ℕ) : Document :=
  ⟨['8', '-', 'K'], ['a', '.', 't', 'x', 't'], [], lineBody letters⟩

/-- A world of plain lines of ASCII text that receives one envelope. -/
def lineWorld (letters : ℕ) : World where
  isSpace character := character == ' ' || character == '\n'
  isDigit := Char.isDigit
  isWord character := character.isAlphanum || character == '_'
  matchesLetter letter character := letter.isAlpha && character.toLower == letter
  receive submission := if submission.raw = lineEnvelope letters then .ok [lineDocument letters]
    else .error "incomplete submission envelope"
  visibleText body _ := .ok (body.map fun byte => Char.ofNat byte.toNat)
  sourceDigest _ := []
  textDigest _ := []
  evidenceId _ := []

def lineSelection (letters : ℕ) : Selection :=
  ⟨⟨['a', '.', 't', 'x', 't'], lineText letters, [], true⟩, none, .absent, []⟩

theorem select_alone {world : World} {submission : Submission} {documents : List Document}
    {primary : Document} {status : ExhibitStatus} {normalized : Normalized}
    (received : world.receive submission = .ok documents)
    (chosen : world.selectDocuments submission documents = .ok (primary, none, status))
    (read : world.normalize submission.encoding primary = .ok normalized) :
    world.select submission =
      .ok ⟨normalized, none, status, world.sourceDigest submission.raw⟩ := by
  simp only [World.select, received, chosen, read, Except.bind, bind, Option.mapM]
  rfl

variable (letters : ℕ)

theorem line_selected :
    (lineWorld letters).select (lineSubmission letters) = .ok (lineSelection letters) := by
  have received : (lineWorld letters).receive (lineSubmission letters) =
      .ok [lineDocument letters] := by simp only [lineWorld, lineSubmission, if_true]
  have chosen : (lineWorld letters).selectDocuments (lineSubmission letters)
      [lineDocument letters] = .ok (lineDocument letters, none, .absent) := rfl
  have text : (lineBody letters).map (fun byte => Char.ofNat byte.toNat) = lineText letters := by
    simp only [lineBody, List.map_cons, List.map_replicate]
    rfl
  have read : (lineWorld letters).normalizedText (lineDocument letters)
      (lineSubmission letters).encoding = .ok (lineText letters) := congrArg Except.ok text
  have normalized : (lineWorld letters).normalize (lineSubmission letters).encoding
      (lineDocument letters) = .ok (lineSelection letters).primary := by
    rw [World.normalize, read]
    rfl
  exact select_alone received chosen normalized

theorem line_accepted : (lineWorld letters).normalizeSubmission (lineSubmission letters) =
    .ok ((lineWorld letters).filing (lineSubmission letters) (lineSelection letters)) := by
  rw [World.normalizeSubmission, line_selected]
  rfl

theorem headingsFrom_line (world : World) (position passed : ℕ) {text : Text}
    (line : '\n' ∉ text) : world.headingsFrom position false passed text = [] := by
  induction text generalizing position passed with
  | nil => cases passed <;> rfl
  | cons character rest ih =>
    have here : (character == '\n') = false :=
      beq_eq_false_iff_ne.mpr fun same => line (same ▸ List.mem_cons_self)
    have later : '\n' ∉ rest := fun listed => line (List.mem_cons_of_mem _ listed)
    cases passed with
    | zero =>
      rw [World.headingsFrom, here]
      exact ih _ _ later
    | succ passed =>
      rw [World.headingsFrom, here]
      exact ih _ _ later

theorem lineText_unbroken : '\n' ∉ lineText letters := by
  simp [lineText, List.mem_replicate]

theorem line_headings :
    (lineWorld letters).headings (lineText letters) = [⟨0, ['2', '.', '0', '2']⟩] := by
  have rest : '\n' ∉ (lineText letters).tail :=
    fun listed => lineText_unbroken letters (List.mem_of_mem_tail listed)
  have first : (lineWorld letters).matchHeading (lineText letters) =
      some (['2', '.', '0', '2'], 9) := by
    cases letters <;> rfl
  have others : (lineWorld letters).headingsFrom 1 false 8 (lineText letters).tail = [] :=
    headingsFrom_line _ 1 8 rest
  obtain ⟨character, unbroken, opened⟩ : ∃ character, (character == '\n') = false ∧
      lineText letters = character :: (lineText letters).tail := by
    cases letters <;> exact ⟨_, rfl, rfl⟩
  rw [opened] at first
  rw [World.headings, opened, World.headingsFrom, if_pos rfl]
  simp only [first, unbroken]
  exact congrArg (List.cons _) others

theorem line_region : (⟨(lineSelection letters).primary, 0, (lineText letters).length⟩ : Region) ∈
    sections (lineSelection letters).primary
      ((lineWorld letters).headings (lineSelection letters).primary.text) := by
  have found : (lineWorld letters).headings (lineSelection letters).primary.text =
      [⟨0, ['2', '.', '0', '2']⟩] := line_headings letters
  rw [found]
  exact List.mem_singleton_self _

theorem lastBreak_line {text : Text} (line : '\n' ∉ text) : lastBreak text = none := by
  induction text with
  | nil => rfl
  | cons character rest ih =>
    have later : '\n' ∉ rest := fun listed => line (List.mem_cons_of_mem _ listed)
    have here : character ≠ '\n' := fun same => line (same ▸ List.mem_cons_self)
    rw [lastBreak, ih later]
    exact if_neg here

theorem rfindBreak_line {text : Text} (line : '\n' ∉ text) (low high : ℕ) :
    rfindBreak text low high = none := by
  have within : '\n' ∉ slice text low high :=
    fun listed => line (List.mem_of_mem_take (List.mem_of_mem_drop listed))
  rw [rfindBreak, lastBreak_line within]
  rfl

theorem line_spans (long : primaryBudget ≤ letters) :
    ((lineWorld letters).filing (lineSubmission letters) (lineSelection letters)).spans = [] := by
  have length : (lineText letters).length = letters + 9 := by simp [lineText]
  have cut : excerptStop (lineText letters) 0 (lineText letters).length primaryBudget = 0 := by
    rw [excerptStop, if_pos (by omega), rfindBreak_line (lineText_unbroken letters)]
  have empty : ((lineWorld letters).excerpt (lineSelection letters).primary 0
      (lineText letters).length primaryBudget []).text = [] :=
    congrArg (slice (lineText letters) 0) cut
  have spans : ((lineWorld letters).filing (lineSubmission letters) (lineSelection letters)).spans =
      ((lineWorld letters).gatherSections (lineSelection letters).primary []
        ((lineWorld letters).headings (lineText letters)) ⟨[], [], primaryBudget⟩).spans := rfl
  rw [spans, line_headings]
  exact congrArg Gathered.spans (if_pos empty)

theorem shortLine_accounted : ∃ primary exhibit,
    ((lineWorld 4).filing (lineSubmission 4) (lineSelection 4)).AccountedBy (lineWorld 4)
      (lineSelection 4) primary exhibit := by
  obtain ⟨selection, selected, accounted⟩ := normalizeSubmission_accounts _ _ _ (line_accepted 4)
  rw [line_selected] at selected
  rwa [← Except.ok.inj selected] at accounted

/-- A section whose one line is longer than the budget has no excerpt. -/
theorem longLine_unexcerpted :
    ¬∀ (world : World) (submission : Submission) (selection : Selection) (filing : Filing),
      world.select submission = .ok selection →
      world.normalizeSubmission submission = .ok filing →
      ∀ region ∈ sections selection.primary (world.headings selection.primary.text),
        ∃ span ∈ filing.spans, ∃ omitted : List Omission, omitted.length ≤ 1 ∧
          (∀ omission ∈ omitted, omission ∈ filing.omittedSpans) ∧
          Tiles region.start ((span.start, span.stop) ::
            omitted.map fun omission => (omission.start, omission.stop)) region.stop := by
  intro covered
  obtain ⟨span, member, -⟩ := covered _ _ _ _ (line_selected 8000) (line_accepted 8000) _
    (line_region 8000)
  rw [line_spans 8000 le_rfl] at member
  cases member

end longLine

end TradingEngine.Filings
