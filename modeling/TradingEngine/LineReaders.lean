import Mathlib

/-!
# Readers of lines

Two readers of a text that is broken into lines by one symbol. The first goes backwards in
chunks and carries the beginning of a line from one chunk to the next. The second goes
forwards and reads at most a number of symbols at once, so a line longer than that comes in
several pieces. Both are related to the lines of the whole text.
-/

namespace TradingEngine.LineReaders

universe u

variable {α : Type u} [DecidableEq α] (lineBreak : α)

/-- The lines before a position, newest first, with a carried beginning of the line after
them. The first number bounds the chunks that are read. -/
def reverseLines (chunkSize : ℕ) (content : List α) : ℕ → ℕ → List α → List (List α)
  | 0, _, carry => [carry]
  | chunks + 1, position, carry =>
    if position = 0 then [carry]
    else
      let size := min position chunkSize
      let chunk := (content.drop (position - size)).take size ++ carry
      match chunk.splitOn lineBreak with
      | [] => []
      | first :: lines =>
        lines.reverse ++ reverseLines chunkSize content chunks (position - size) first

variable {lineBreak}

/-- A text is one line, or a line, a break and the rest. -/
theorem line_or_break (lineBreak : α) (text : List α) :
    lineBreak ∉ text ∨ ∃ line rest, lineBreak ∉ line ∧ text = line ++ lineBreak :: rest := by
  induction text with
  | nil => exact .inl List.not_mem_nil
  | cons symbol text ih =>
    by_cases same : symbol = lineBreak
    · subst same
      exact .inr ⟨[], text, List.not_mem_nil, rfl⟩
    · rcases ih with none | ⟨line, rest, none, rfl⟩
      · left
        simp [none, Ne.symm same]
      · right
        exact ⟨symbol :: line, rest, by simp [none, Ne.symm same], rfl⟩

/-- Only the first line of the second text is joined to what stands before it. -/
theorem splitOn_append (lineBreak : α) (before text : List α) :
    ∃ first lines, text.splitOn lineBreak = first :: lines ∧ lineBreak ∉ first ∧
      (before ++ text).splitOn lineBreak = (before ++ first).splitOn lineBreak ++ lines := by
  rcases line_or_break lineBreak text with none | ⟨line, rest, none, rfl⟩
  · exact ⟨text, [], List.splitOn_eq_singleton none, none, by simp⟩
  · refine ⟨line, rest.splitOn lineBreak, ?_, none, ?_⟩
    · exact List.splitOn_append_cons_self_of_not_mem none rest
    · rw [← List.append_assoc, List.splitOn_append_cons_self]

/-- Whatever the size of the chunks, the lines are those of the text, newest first. -/
theorem reverseLines_eq {chunkSize : ℕ} (positive : 0 < chunkSize) {content : List α}
    {chunks position : ℕ} {carry : List α} (enough : position ≤ chunks)
    (inside : position ≤ content.length) (none : lineBreak ∉ carry) :
    reverseLines lineBreak chunkSize content chunks position carry =
      ((content.take position ++ carry).splitOn lineBreak).reverse := by
  induction chunks generalizing position carry with
  | zero =>
    obtain rfl : position = 0 := by omega
    simp [reverseLines, List.splitOn_eq_singleton none]
  | succ chunks ih =>
    rw [reverseLines]
    split
    · rename_i start
      subst start
      simp [List.splitOn_eq_singleton none]
    · rename_i further
      dsimp only
      generalize size : min position chunkSize = read
      have some : 0 < read ∧ read ≤ position := by omega
      obtain ⟨first, lines, split, whole, joined⟩ := splitOn_append lineBreak
        (content.take (position - read)) ((content.drop (position - read)).take read ++ carry)
      have same : content.take (position - read) ++
          ((content.drop (position - read)).take read ++ carry) =
            content.take position ++ carry := by
        rw [← List.append_assoc]
        congr 1
        have sum : position = (position - read) + read := by omega
        conv_rhs => rw [sum, List.take_add]
      rw [split]
      dsimp only
      rw [ih (by omega) (by omega) whole, ← List.reverse_append, ← joined, same]

/-- Read to the end of the line, but no more than a number of symbols. -/
def readline (lineBreak : α) : ℕ → List α → List α
  | 0, _ => []
  | _ + 1, [] => []
  | limit + 1, symbol :: rest =>
    if symbol = lineBreak then [symbol] else symbol :: readline lineBreak limit rest

/-- The successive pieces. The number is how many symbols of the last one are still to be
passed over. -/
def pieces (lineBreak : α) (limit : ℕ) : List α → ℕ → List (List α)
  | [], _ => []
  | _ :: rest, passed + 1 => pieces lineBreak limit rest passed
  | symbol :: rest, 0 =>
    let piece := readline lineBreak (min limit (rest.length + 1)) (symbol :: rest)
    piece :: pieces lineBreak limit rest (piece.length - 1)

theorem readline_starts (lineBreak : α) (limit : ℕ) (text : List α) :
    readline lineBreak limit text <+: text := by
  fun_induction readline lineBreak limit text with
  | case1 text => exact List.nil_prefix
  | case2 limit => exact List.nil_prefix
  | case3 limit rest => exact ⟨rest, rfl⟩
  | case4 limit symbol rest other ih =>
    exact List.cons_prefix_cons.mpr ⟨rfl, ih⟩

theorem readline_some {limit : ℕ} (positive : 0 < limit) (symbol : α) (rest : List α) :
    readline lineBreak limit (symbol :: rest) ≠ [] := by
  obtain ⟨limit, rfl⟩ := Nat.exists_eq_succ_of_ne_zero positive.ne'
  rw [readline]
  split <;> simp

/-- A break ends what is read. -/
theorem readline_line (limit : ℕ) (text : List α) :
    ∃ line, lineBreak ∉ line ∧ (readline lineBreak limit text = line ∨
      readline lineBreak limit text = line ++ [lineBreak]) := by
  fun_induction readline lineBreak limit text with
  | case1 text => exact ⟨[], List.not_mem_nil, .inl rfl⟩
  | case2 limit => exact ⟨[], List.not_mem_nil, .inl rfl⟩
  | case3 limit rest => exact ⟨[], List.not_mem_nil, .inr rfl⟩
  | case4 limit symbol rest other ih =>
    obtain ⟨line, none, same⟩ := ih
    refine ⟨symbol :: line, by simp [none, Ne.symm other], ?_⟩
    rcases same with same | same
    · exact .inl (by rw [same])
    · exact .inr (by rw [same, List.cons_append])

/-- Nothing beyond a break is read. -/
theorem readline_append {before : List α} (broken : lineBreak ∈ before) (limit : ℕ)
    (after : List α) :
    readline lineBreak limit (before ++ after) = readline lineBreak limit before := by
  induction before generalizing limit with
  | nil => contradiction
  | cons symbol before ih =>
    cases limit with
    | zero => rfl
    | succ limit =>
      rw [List.cons_append, readline, readline]
      split
      · rfl
      · rename_i other
        have later : lineBreak ∈ before := (List.mem_cons.mp broken).resolve_left (Ne.symm other)
        rw [ih later]

theorem readline_short {line : List α} (none : lineBreak ∉ line) {limit : ℕ}
    (short : line.length < limit) (rest : List α) :
    readline lineBreak limit (line ++ lineBreak :: rest) = line ++ [lineBreak] := by
  induction line generalizing limit with
  | nil =>
    obtain ⟨limit, rfl⟩ := Nat.exists_eq_succ_of_ne_zero (by omega : limit ≠ 0)
    simp [readline]
  | cons symbol line ih =>
    obtain ⟨limit, rfl⟩ := Nat.exists_eq_succ_of_ne_zero (by omega : limit ≠ 0)
    rw [List.mem_cons, not_or] at none
    rw [List.cons_append, readline, if_neg (Ne.symm none.1),
      ih none.2 (by simpa using short), List.cons_append]

theorem readline_last {line : List α} (none : lineBreak ∉ line) {limit : ℕ}
    (short : line.length ≤ limit) : readline lineBreak limit line = line := by
  induction line generalizing limit with
  | nil => cases limit <;> rfl
  | cons symbol line ih =>
    obtain ⟨limit, rfl⟩ := Nat.exists_eq_succ_of_ne_zero
      (by simp only [List.length_cons] at short; omega : limit ≠ 0)
    rw [List.mem_cons, not_or] at none
    rw [readline, if_neg (Ne.symm none.1), ih none.2 (by simpa using short)]

/-- More room than the text has makes no difference. -/
theorem readline_min {limit bound : ℕ} {text : List α} (room : text.length ≤ bound) :
    readline lineBreak (min limit bound) text = readline lineBreak limit text := by
  induction text generalizing limit bound with
  | nil => cases limit <;> cases bound <;> simp [readline]
  | cons symbol text ih =>
    obtain ⟨bound, rfl⟩ := Nat.exists_eq_succ_of_ne_zero
      (by simp only [List.length_cons] at room; omega : bound ≠ 0)
    cases limit with
    | zero => rw [Nat.zero_min]
    | succ limit =>
      rw [Nat.succ_min_succ, readline, readline,
        ih (by simpa using room)]

section Pieces

variable {limit : ℕ} (positive : 0 < limit)

theorem pieces_passed (text : List α) (passed : ℕ) :
    pieces lineBreak limit text passed = pieces lineBreak limit (text.drop passed) 0 := by
  induction text generalizing passed with
  | nil => simp [pieces]
  | cons symbol rest ih =>
    cases passed with
    | zero => rfl
    | succ passed => simpa [pieces] using ih passed

include positive

/-- One piece and those of the rest. -/
theorem pieces_step (lineBreak : α) {text : List α} (some : text ≠ []) :
    ∃ piece rest, piece = readline lineBreak limit text ∧ piece ≠ [] ∧ text = piece ++ rest ∧
      pieces lineBreak limit text 0 = piece :: pieces lineBreak limit rest 0 := by
  cases text with
  | nil => contradiction
  | cons symbol text =>
    have nonempty : readline lineBreak limit (symbol :: text) ≠ [] :=
      readline_some positive symbol text
    obtain ⟨rest, same⟩ := readline_starts lineBreak limit (symbol :: text)
    refine ⟨_, rest, rfl, nonempty, same.symm, ?_⟩
    have room : (symbol :: text).length ≤ text.length + 1 := le_refl _
    rw [pieces, readline_min room, pieces_passed]
    congr 2
    obtain ⟨length, exact⟩ :=
      Nat.exists_eq_succ_of_ne_zero (List.length_pos_of_ne_nil nonempty).ne'
    have dropped := congrArg (List.drop (readline lineBreak limit (symbol :: text)).length) same
    rw [List.drop_left, exact, List.drop_succ_cons] at dropped
    rw [exact, Nat.succ_sub_one]
    exact dropped.symm

theorem pieces_flatten (text : List α) : (pieces lineBreak limit text 0).flatten = text := by
  induction size : text.length using Nat.strong_induction_on generalizing text with
  | _ size ih =>
  by_cases some : text = []
  · subst some
    rfl
  · obtain ⟨piece, rest, -, nonempty, rfl, step⟩ := pieces_step positive lineBreak some
    have := List.length_pos_of_ne_nil nonempty
    rw [step, List.flatten_cons,
      ih rest.length (by rw [← size, List.length_append]; omega) rest rfl]

theorem pieces_some {text piece : List α} (listed : piece ∈ pieces lineBreak limit text 0) :
    piece ≠ [] ∧ ∃ line, lineBreak ∉ line ∧ (piece = line ∨ piece = line ++ [lineBreak]) := by
  induction size : text.length using Nat.strong_induction_on generalizing text with
  | _ size ih =>
  by_cases some : text = []
  · subst some
    simp [pieces] at listed
  · obtain ⟨first, rest, same, nonempty, rfl, step⟩ :=
      pieces_step positive lineBreak some
    rw [step] at listed
    rcases List.mem_cons.mp listed with rfl | later
    · refine ⟨nonempty, ?_⟩
      rw [same]
      exact readline_line _ _
    · have := List.length_pos_of_ne_nil nonempty
      exact ih rest.length (by rw [← size, List.length_append]; omega) later rfl

/-- The pieces of a text that ends with a break are read before those of what follows. -/
theorem pieces_append {before : List α} (whole : before = [] ∨ before.getLast? = some lineBreak)
    (after : List α) :
    pieces lineBreak limit (before ++ after) 0 =
      pieces lineBreak limit before 0 ++ pieces lineBreak limit after 0 := by
  induction size : before.length using Nat.strong_induction_on generalizing before with
  | _ size ih =>
  by_cases some : before = []
  · subst some
    simp [pieces]
  · have broken : lineBreak ∈ before := List.mem_of_getLast? (whole.resolve_left some)
    obtain ⟨piece, rest, same, nonempty, split, step⟩ :=
      pieces_step positive lineBreak some
    have more : before ++ after ≠ [] := by simp [some]
    obtain ⟨other, remaining, same', -, split', step'⟩ :=
      pieces_step positive lineBreak more
    obtain rfl : other = piece := by rw [same', same, readline_append broken]
    obtain rfl : remaining = rest ++ after := by
      rw [split, List.append_assoc] at split'
      exact (List.append_cancel_left split').symm
    have ends : rest = [] ∨ rest.getLast? = Option.some lineBreak := by
      by_cases empty : rest = []
      · exact .inl empty
      · right
        have last := whole.resolve_left some
        rwa [split, List.getLast?_append_of_ne_nil _ empty] at last
    have := List.length_pos_of_ne_nil nonempty
    rw [step', step, List.cons_append, ih rest.length
      (by rw [← size, split, List.length_append]; omega) ends rfl]

/-- A line shorter than the limit is one piece. -/
theorem pieces_line {line : List α} (none : lineBreak ∉ line) (short : line.length < limit)
    (rest : List α) :
    pieces lineBreak limit (line ++ lineBreak :: rest) 0 =
      (line ++ [lineBreak]) :: pieces lineBreak limit rest 0 := by
  have some : line ++ lineBreak :: rest ≠ [] := by simp
  obtain ⟨piece, remaining, same, -, split, step⟩ :=
    pieces_step positive lineBreak some
  obtain rfl : piece = line ++ [lineBreak] := by rw [same, readline_short none short]
  obtain rfl : remaining = rest := by simpa using split.symm
  exact step

theorem pieces_last {line : List α} (none : lineBreak ∉ line) (short : line.length ≤ limit)
    (some : line ≠ []) : pieces lineBreak limit line 0 = [line] := by
  obtain ⟨piece, remaining, same, -, split, step⟩ :=
    pieces_step positive lineBreak some
  obtain rfl : piece = line := by rw [same, readline_last none short]
  obtain rfl : remaining = [] := by simpa using split
  rw [step, pieces]

end Pieces

/-- Lines, each with a break after it. -/
def unlines (lineBreak : α) (lines : List (List α)) : List α :=
  lines.flatMap fun line => line ++ [lineBreak]

omit [DecidableEq α] in
@[simp] theorem unlines_nil : unlines lineBreak [] = [] := rfl

omit [DecidableEq α] in
@[simp] theorem unlines_cons (line : List α) (lines : List (List α)) :
    unlines lineBreak (line :: lines) = line ++ lineBreak :: unlines lineBreak lines := by
  simp [unlines]

/-- Every text is lines and a last line without a break. -/
theorem exists_unlines (lineBreak : α) (text : List α) :
    ∃ lines last, (∀ line ∈ lines, lineBreak ∉ line) ∧ lineBreak ∉ last ∧
      text = unlines lineBreak lines ++ last := by
  induction size : text.length using Nat.strong_induction_on generalizing text with
  | _ size ih =>
  rcases line_or_break lineBreak text with none | ⟨line, rest, none, rfl⟩
  · exact ⟨[], text, by simp, none, rfl⟩
  · obtain ⟨lines, last, whole, ended, same⟩ := ih rest.length
      (by rw [← size]; simp; omega) rest rfl
    exact ⟨line :: lines, last, List.forall_mem_cons.mpr ⟨none, whole⟩, ended, by simp [same]⟩

theorem splitOn_unlines {lines : List (List α)} (whole : ∀ line ∈ lines, lineBreak ∉ line)
    (text : List α) :
    (unlines lineBreak lines ++ text).splitOn lineBreak = lines ++ text.splitOn lineBreak := by
  induction lines with
  | nil => rfl
  | cons line lines ih =>
    rw [unlines_cons, List.append_assoc, List.cons_append,
      List.splitOn_append_cons_self_of_not_mem (whole line List.mem_cons_self),
      ih fun other listed => whole other (List.mem_cons_of_mem _ listed),
      List.cons_append]

/-- Lines shorter than the limit are the pieces. -/
theorem pieces_unlines {limit : ℕ} {lines : List (List α)}
    (whole : ∀ line ∈ lines, lineBreak ∉ line) (short : ∀ line ∈ lines, line.length < limit)
    (text : List α) :
    pieces lineBreak limit (unlines lineBreak lines ++ text) 0 =
      lines.map (· ++ [lineBreak]) ++ pieces lineBreak limit text 0 := by
  induction lines with
  | nil => rfl
  | cons line lines ih =>
    rw [List.forall_mem_cons] at whole short
    rw [unlines_cons, List.append_assoc, List.cons_append,
      pieces_line (by omega) whole.1 short.1, ih whole.2 short.2, List.map_cons,
      List.cons_append]

end TradingEngine.LineReaders
