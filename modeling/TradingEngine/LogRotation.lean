import TradingEngine.LineReaders
import TradingEngine.LogExpiry

/-!
# Rotation of driver logs

A cumulative log holds the runs of one driver between start and terminal markers. The
monitor reads it backwards to the latest start. Rotation compresses the whole log aside and
leaves a note, the earlier lines that begin like a marker, and a tail. Nobody writes to the
log meanwhile, and what was compressed is decompressed to itself.

The two sides have their own lists of marker prefixes, and the rotation reads at most a
mebibyte of a line at once.
-/

namespace TradingEngine.LogRotation

open Lanes (Text isSpace)

open LineReaders LogExpiry

abbrev Bytes := List UInt8

def byte (character : Char) : UInt8 := UInt8.ofNat character.toNat

def ascii (text : String) : Bytes := text.toList.map byte

def newline : UInt8 := 10

/-- Decoding with replacement, and the character database. -/
structure Reader where
  decode : Bytes → Text
  decimals : Decimals

def startsWith (text beginning : Text) : Bool := decide (beginning <+: text)

/-- The rest of a text after an expected beginning. -/
def after (beginning : String) (text : Text) : Option Text :=
  if beginning.toList <+: text then some (text.drop beginning.toList.length) else none

/-- The characters up to a white space, at least one, and the rest. -/
def word (text : Text) : Option (Text × Text) :=
  let found := text.takeWhile fun character => !isSpace character
  if found = [] then none else some (found, text.drop found.length)

structure Start where
  name : Text
  startedAt : Text

inductive Terminal where
  | done (finishedAt : Text)
  | failed (name finishedAt : Text) (stage : Option Text) (exitCode : ℕ)

/-- `=== (?!done )(\S+) (\S+) ===` -/
def driverStart (line : Text) : Option Start := do
  let rest ← after "=== " line
  if startsWith rest "done ".toList then none
  else
    let (name, rest) ← word rest
    let rest ← after " " rest
    let (startedAt, rest) ← word rest
    if rest = " ===".toList then some ⟨name, startedAt⟩ else none

/-- `=== run_[^ ]*(?: |$)`, which asks for nothing after its beginning. -/
def driverStartPrefix (line : Text) : Bool := startsWith line "=== run_".toList

/-- `=== done (\S+) ===` -/
def driverDone (line : Text) : Option Terminal := do
  let rest ← after "=== done " line
  let (finishedAt, rest) ← word rest
  if rest = " ===".toList then some (.done finishedAt) else none

/-- A space or the end of the line. -/
def spaceOrEnd (text : Text) : Bool := text.isEmpty || startsWith text [' ']

def driverDonePrefix (line : Text) : Bool :=
  match after "=== done" line with
  | none => false
  | some rest => spaceOrEnd rest

variable (reader : Reader)

/-- The optional stage of a failure and the rest. -/
def failedStage (text : Text) : Option (Option Text × Text) :=
  match after "stage=" text with
  | none => some (none, text)
  | some rest =>
    let stage := rest.takeWhile (· ≠ ' ')
    if stage = [] then none
    else (after " " (rest.drop stage.length)).map fun rest => (some stage, rest)

/-- `TODO: (\S+) failed (\S+) \((?:stage=([^ ]+) )?exit (\d+)\)` -/
def driverFailed (line : Text) : Option Terminal := do
  let rest ← after "TODO: " line
  let (name, rest) ← word rest
  let rest ← after " failed " rest
  let (finishedAt, rest) ← word rest
  let rest ← after " (" rest
  let (stage, rest) ← failedStage rest
  let rest ← after "exit " rest
  let digits := rest.takeWhile reader.decimals.isDecimal
  if digits = [] then none
  else
    let exitCode ← number reader.decimals digits
    if startsWith (rest.drop digits.length) [')'] then
      some (.failed name finishedAt stage exitCode)
    else none

def driverFailedPrefix (line : Text) : Bool :=
  match (do
    let rest ← after "TODO: " line
    let (_, rest) ← word rest
    after " failed" rest) with
  | none => false
  | some rest => spaceOrEnd rest

structure Markers where
  start : Option Start
  terminal : Option Terminal
  error : Option String
  isPartial : Bool

structure Seen where
  terminal : Option Terminal
  multipleTerminals : Bool
  malformedTerminal : Bool
  isPartial : Bool

def isPartialLine (raw : Bytes) : Bool := decide (ascii "PARTIAL: " <+: raw)

/-- The lines that the monitor decodes. -/
def isMarkerLine (raw : Bytes) : Bool :=
  !isPartialLine raw && (decide (ascii "=== " <+: raw) || decide (ascii "TODO: " <+: raw))

def candidate (line : Text) : Option Terminal := (driverDone line).or (driverFailed reader line)

def isMalformedTerminal (line : Text) : Bool :=
  (candidate reader line).isNone && (driverDonePrefix line || driverFailedPrefix line)

def seenTerminal (seen : Seen) (line : Text) : Seen :=
  match candidate reader line with
  | some found => match seen.terminal with
    | none => { seen with terminal := some found }
    | some _ => { seen with multipleTerminals := true }
  | none =>
    if driverDonePrefix line || driverFailedPrefix line then { seen with malformedTerminal := true }
    else seen

def markerError (seen : Seen) : Option String :=
  if seen.malformedTerminal then some "malformed-terminal-marker"
  else if seen.multipleTerminals then some "multiple-terminal-markers"
  else none

/-- The markers of the latest run, from lines newest first. -/
def readMarkers : Seen → List Bytes → Markers
  | seen, [] => ⟨none, seen.terminal, none, false⟩
  | seen, raw :: rest =>
    if isPartialLine raw then readMarkers { seen with isPartial := true } rest
    else if isMarkerLine raw then
      let line := reader.decode raw
      let seen := seenTerminal reader seen line
      match driverStart line with
      | some start => ⟨some start, seen.terminal, markerError seen, seen.isPartial⟩
      | none =>
        if driverStartPrefix line then ⟨none, none, some "malformed-start-marker", false⟩
        else readMarkers seen rest
    else readMarkers seen rest

def chunkSize : ℕ := 64 * 1024

def latestRunMarkers (content : Bytes) (position : ℕ) : Markers :=
  readMarkers reader ⟨none, false, false, false⟩
    (reverseLines newline chunkSize content position position [])

/-- What the monitor knows besides the log. -/
structure View where
  log : Text
  lockGiven : Bool
  lockBefore : Option Bool
  lockAfter : Option Bool
  checkedAt : ℤ
  staleAfter : ℤ

structure Status where
  name : Option Text
  startedAt : Option Text
  status : String
  log : Text
  finishedAt : Option Text
  exitCode : Option ℕ
  stage : Option Text
  reason : Option String
  lockHeld : Option Bool

/-- The exact UTC timestamp of the drivers, which has ASCII figures only. -/
def utcTimestamp : Text → Option ℤ
  | [y₁, y₂, y₃, y₄, '-', m₁, m₂, '-', d₁, d₂, 'T', h₁, h₂, ':', n₁, n₂, ':', s₁, s₂, 'Z'] => do
    let dated ← civilDate figures y₁ y₂ y₃ y₄ m₁ m₂ d₁ d₂
    let h ← hour figures h₁ h₂
    let n ← sixty figures n₁ n₂
    let s ← sixty figures s₁ s₂
    some (midnight dated + (h * 3600 + n * 60 + s) * 1000000)
  | _ => none

def Terminal.finishedAt : Terminal → Text
  | .done finishedAt => finishedAt
  | .failed _ finishedAt _ _ => finishedAt

def terminalFields (status : Status) (isPartial : Bool) : Terminal → Status
  | .done finishedAt =>
    let status := { status with status := "ok", finishedAt := some finishedAt }
    if isPartial then { status with status := "partial", reason := some "queue-drain-partial" }
    else status
  | .failed _ finishedAt stage exitCode =>
    { status with
      status := "failed", finishedAt := some finishedAt, exitCode := some exitCode, stage := stage }

/-- Whether a failure names another driver. -/
def Terminal.otherName (driverName : Text) : Terminal → Bool
  | .done _ => false
  | .failed name _ _ _ => decide (name ≠ driverName)

def terminalStatus (status : Status) (terminal : Terminal) (driverName : Text)
    (startedAt checkedAt : ℤ) (isPartial : Bool) : Status :=
  let result := terminalFields status isPartial terminal
  match utcTimestamp terminal.finishedAt with
  | none => { result with status := "invalid", reason := some "invalid-finished-at" }
  | some finishedAt =>
    if terminal.otherName driverName then
      { result with status := "invalid", reason := some "terminal-name-mismatch" }
    else if finishedAt < startedAt then
      { result with status := "invalid", reason := some "finished-before-start" }
    else if checkedAt < finishedAt then
      { result with status := "invalid", reason := some "future-finished-at" }
    else result

def unterminatedStatus (view : View) (status : Status) (startedAt : ℤ) : Status :=
  let elapsed := view.checkedAt - startedAt
  let before := if view.lockGiven then view.lockBefore else none
  let after := if view.lockGiven then view.lockAfter else none
  let held := if before = some true ∨ after = some true then some true else after
  if held = some true then
    let result := { status with status := "running", lockHeld := some true }
    if view.staleAfter < elapsed then
      { result with status := "stale-running", reason := some "runtime-exceeded" }
    else result
  else if held = some false then
    { status with
      status := "interrupted", reason := some "lock-not-held", lockHeld := some false }
  else if view.staleAfter < elapsed then
    { status with status := "interrupted", reason := some "stale-start" }
  else { status with status := "running" }

def runStatus (view : View) (start : Start) (markers : Markers) : Status :=
  let status : Status :=
    ⟨some start.name, some start.startedAt, "running", view.log, none, none, none, none, none⟩
  match utcTimestamp start.startedAt with
  | none => { status with status := "invalid", reason := some "invalid-started-at" }
  | some startedAt =>
    if view.checkedAt < startedAt then
      { status with status := "invalid", reason := some "future-started-at" }
    else match markers.error with
      | some error => { status with status := "invalid", reason := some error }
      | none => match markers.terminal with
        | some terminal =>
          terminalStatus status terminal start.name startedAt view.checkedAt markers.isPartial
        | none => unterminatedStatus view status startedAt

/-- The status of the driver of a readable log. An empty log has none. -/
def driverStatus (view : View) (content : Bytes) : Option Status :=
  if content.length = 0 then none
  else
    let markers := latestRunMarkers reader content content.length
    match markers.start with
    | none => some ⟨none, none, "invalid", view.log, none, none, none,
        some (markers.error.getD "missing-start-marker"), none⟩
    | some start => some (runStatus view start markers)

def readLimit : ℕ := 1024 * 1024

/-- The prefixes of the lines that rotation keeps. -/
def markerPrefixes : List Bytes := [ascii "=== ", ascii "TODO: ", ascii "STAGE driver="]

def isKept (line : Bytes) : Bool := markerPrefixes.any fun beginning => decide (beginning <+: line)

/-- Where the tail begins: on a whole line. -/
def tailStart (content : Bytes) (tailBytes : ℕ) : ℕ :=
  let start := content.length - tailBytes
  if start = 0 then 0
  else if content[start - 1]? = some newline then start
  else start + (readline newline content.length (content.drop start)).length

def terminate (line : Bytes) : Bytes :=
  if line.getLast? = some newline then line else line ++ [newline]

/-- The marker lines among pieces read from a position on, and the position after them. -/
def markersBefore (start : ℕ) : ℕ → List Bytes → List Bytes × ℕ
  | position, [] => ([], position)
  | position, piece :: rest =>
    let later := markersBefore start (position + piece.length) rest
    if position < start ∧ isKept piece then (terminate piece :: later.1, later.2) else later

/-- A driver log's name and the stamp of the rotation hold no line feed. -/
structure Labels where
  name : Bytes
  stamp : Bytes
  name_line : newline ∉ name
  stamp_line : newline ∉ stamp

def digits (count : ℕ) : Bytes := (Nat.toDigits 10 count).map byte

def removeLog (name : Bytes) : Bytes :=
  if ascii ".log" <:+ name then name.take (name.length - 4) else name

def noteLine (labels : Labels) (size markers tail : ℕ) : Bytes :=
  ascii "--- log-retention " ++ labels.stamp ++ ascii ": " ++ digits size ++
    ascii " bytes rotated to rotated/" ++ removeLog labels.name ++ ascii "-" ++ labels.stamp ++
    ascii ".log.gz; kept " ++ digits markers ++ ascii " earlier run-marker lines and the last " ++
    digits tail ++ ascii " bytes ---"

structure Rotated where
  archive : Bytes
  body : Bytes

/-- Rotate a log that nobody changes. -/
def rotate (labels : Labels) (content : Bytes) (tailBytes : ℕ) : Except String Rotated :=
  let size := content.length
  let start := tailStart content tailBytes
  let read := pieces newline readLimit content 0
  let (markers, position) := markersBefore start 0 read
  let tail := (content.drop start).take (size - start)
  if position ≠ size then .error "changed while rotating; left as it was"
  else
    let note := noteLine labels size markers.length tail.length ++ [newline]
    .ok ⟨read.flatten, note ++ markers.flatten ++ tail⟩

/-- A line that ends the reading: a start, or a malformed one. -/
def opens (raw : Bytes) : Option (Option Start) :=
  if isMarkerLine raw then
    match driverStart (reader.decode raw) with
    | some start => some (some start)
    | none => if driverStartPrefix (reader.decode raw) then some none else none
  else none

def opening (lines : List Bytes) : Option (Option Start) := lines.findSome? (opens reader)

/-- The lines of the latest run, newest first, with the line that opens it. -/
def currentRun : List Bytes → List Bytes
  | [] => []
  | raw :: rest => if (opens reader raw).isSome then [raw] else raw :: currentRun rest

def terminalOf (raw : Bytes) : Option Terminal :=
  if isMarkerLine raw then candidate reader (reader.decode raw) else none

def terminals (run : List Bytes) : List Terminal := run.filterMap (terminalOf reader)

def isMalformed (raw : Bytes) : Bool :=
  isMarkerLine raw && isMalformedTerminal reader (reader.decode raw)

/-- What is wrong with the terminal lines of a run. -/
def runError (run : List Bytes) : Option String :=
  if run.any (isMalformed reader) then some "malformed-terminal-marker"
  else if 2 ≤ (terminals reader run).length then some "multiple-terminal-markers"
  else none

def seenLine (seen : Seen) (raw : Bytes) : Seen :=
  if isPartialLine raw then { seen with isPartial := true }
  else if isMarkerLine raw then seenTerminal reader seen (reader.decode raw)
  else seen

def conclude : Option (Option Start) → Seen → Markers
  | none, seen => ⟨none, seen.terminal, none, false⟩
  | some none, _ => ⟨none, none, some "malformed-start-marker", false⟩
  | some (some start), seen => ⟨some start, seen.terminal, markerError seen, seen.isPartial⟩

theorem isMarkerLine_of_isPartialLine {raw : Bytes} (isPartial : isPartialLine raw) :
    isMarkerLine raw = false := by
  simp [isMarkerLine, isPartial]

theorem readMarkers_eq (seen : Seen) (lines : List Bytes) :
    readMarkers reader seen lines =
      conclude (opening reader lines) ((currentRun reader lines).foldl (seenLine reader) seen) := by
  induction lines generalizing seen with
  | nil => rfl
  | cons raw rest ih =>
    rw [readMarkers, opening, List.findSome?_cons, currentRun]
    by_cases isPartial : isPartialLine raw
    · have quiet : opens reader raw = none := by
        simp [opens, isMarkerLine_of_isPartialLine isPartial]
      rw [if_pos isPartial, quiet, ih]
      simp [seenLine, isPartial, opening]
    · rw [if_neg isPartial]
      by_cases marker : isMarkerLine raw
      · rw [if_pos marker]
        dsimp only
        cases started : driverStart (reader.decode raw) with
        | some start =>
          have opened : opens reader raw = some (some start) := by simp [opens, marker, started]
          simp [opened, conclude, seenLine, isPartial, marker]
        | none =>
          by_cases malformed : driverStartPrefix (reader.decode raw)
          · have opened : opens reader raw = some none := by
              simp [opens, marker, started, malformed]
            simp [opened, conclude, malformed]
          · have quiet : opens reader raw = none := by simp [opens, marker, started, malformed]
            simp [quiet, malformed, ih, opening, seenLine, isPartial, marker]
      · have quiet : opens reader raw = none := by simp [opens, marker]
        simp [quiet, marker, ih, opening, seenLine, isPartial]

theorem seenLine_eq (seen : Seen) (raw : Bytes) :
    seenLine reader seen raw =
      ⟨seen.terminal.or (terminalOf reader raw),
        seen.multipleTerminals || (seen.terminal.isSome && (terminalOf reader raw).isSome),
        seen.malformedTerminal || isMalformed reader raw,
        seen.isPartial || isPartialLine raw⟩ := by
  unfold seenLine
  by_cases isPartial : isPartialLine raw
  · simp [isPartial, terminalOf, isMalformed, isMarkerLine_of_isPartialLine isPartial]
  · by_cases marker : isMarkerLine raw
    · simp only [isPartial, marker, seenTerminal, terminalOf, isMalformed, isMalformedTerminal]
      cases candidate reader (reader.decode raw) with
      | none =>
        by_cases malformed :
            (driverDonePrefix (reader.decode raw) || driverFailedPrefix (reader.decode raw)) = true
        · simp [malformed]
        · simp [malformed]
      | some found => cases seen.terminal <;> simp
    · simp [isPartial, marker, terminalOf, isMalformed]

/-- What a run leaves when nothing was seen before it. -/
theorem foldl_seenLine (run : List Bytes) (seen : Seen) :
    run.foldl (seenLine reader) seen =
      ⟨seen.terminal.or (terminals reader run).head?,
        seen.multipleTerminals ||
          decide (2 ≤ (terminals reader run).length + if seen.terminal.isSome then 1 else 0),
        seen.malformedTerminal || run.any (isMalformed reader),
        seen.isPartial || run.any isPartialLine⟩ := by
  induction run generalizing seen with
  | nil =>
    obtain ⟨terminal, multiple, malformed, isPartial⟩ := seen
    cases terminal <;> simp [terminals]
  | cons raw run ih =>
    rw [List.foldl_cons, ih, seenLine_eq]
    obtain ⟨terminal, multiple, malformed, isPartial⟩ := seen
    cases found : terminalOf reader raw with
    | none => simp [terminals, found, Bool.or_assoc]
    | some terminal' =>
      cases terminal <;> simp [terminals, found, Bool.or_assoc]

theorem readMarkers_run (lines : List Bytes) :
    readMarkers reader ⟨none, false, false, false⟩ lines =
      match opening reader lines with
      | none => ⟨none, (terminals reader (currentRun reader lines)).head?, none, false⟩
      | some none => ⟨none, none, some "malformed-start-marker", false⟩
      | some (some start) =>
        ⟨some start, (terminals reader (currentRun reader lines)).head?,
          runError reader (currentRun reader lines),
          (currentRun reader lines).any isPartialLine⟩ := by
  rw [readMarkers_eq, foldl_seenLine]
  rcases opening reader lines with _ | _ | start
  · simp [conclude]
  · rfl
  · simp [conclude, markerError, runError]

/-- A piece without its line break. -/
def strip (piece : Bytes) : Bytes :=
  if piece.getLast? = some newline then piece.dropLast else piece

section Lines

variable (content : Bytes) (tailBytes : ℕ)

/-- The lines of the tail, oldest first. -/
def tailLines : List Bytes := (content.drop (tailStart content tailBytes)).splitOn newline

/-- The lines before the tail, oldest first. -/
def headLines : List Bytes :=
  let lines := (content.take (tailStart content tailBytes)).splitOn newline
  if lines.getLast? = some [] then lines.dropLast else lines

/-- The lines that rotation keeps of those before the tail: pieces of at most a mebibyte. -/
def keptLines : List Bytes :=
  ((pieces newline readLimit (content.take (tailStart content tailBytes)) 0).map strip).filter
    isKept

/-- The lines of the log, newest first. -/
def newestLines : List Bytes :=
  (tailLines content tailBytes).reverse ++ (headLines content tailBytes).reverse

/-- The lines of what rotation leaves of the log, newest first. -/
def newestLeft : List Bytes :=
  (tailLines content tailBytes).reverse ++ (keptLines content tailBytes).reverse

end Lines

theorem readLimit_pos : 0 < readLimit := by decide

/-- The tail begins on a whole line, or there is none. -/
theorem tailStart_boundary (content : Bytes) (tailBytes : ℕ) :
    tailStart content tailBytes ≤ content.length ∧
      (content.take (tailStart content tailBytes) = [] ∨
        (content.take (tailStart content tailBytes)).getLast? = some newline ∨
        tailStart content tailBytes = content.length) := by
  unfold tailStart
  dsimp only
  generalize exact : content.length - tailBytes = start
  have within : start ≤ content.length := by omega
  split
  · simp
  rename_i later
  split
  · rename_i broken
    refine ⟨within, .inr (.inl ?_)⟩
    rw [List.getLast?_eq_getElem?, List.length_take, min_eq_left within,
      List.getElem?_take_of_lt (by omega)]
    exact broken
  · obtain none | ⟨line, rest, none, split⟩ := line_or_break newline (content.drop start)
    · have whole : (content.drop start).length = content.length - start := List.length_drop
      rw [readline_last none (by omega), whole]
      exact ⟨by omega, .inr (.inr (by omega))⟩
    · have whole := congrArg List.length split
      simp only [List.length_drop, List.length_append, List.length_cons] at whole
      rw [split, readline_short none (by omega)]
      refine ⟨by simp only [List.length_append, List.length_singleton]; omega, .inr (.inl ?_)⟩
      have taken : (line ++ newline :: rest).take (line ++ [newline]).length = line ++ [newline] :=
        List.prefix_iff_eq_take.mp ⟨rest, by simp⟩ |>.symm
      rw [List.take_add, split, taken]
      simp

theorem strip_line {line : Bytes} (none : newline ∉ line) :
    strip line = line ∧ strip (line ++ [newline]) = line := by
  have last : line.getLast? ≠ some newline := fun found => none (List.mem_of_getLast? found)
  simp [strip, last]

theorem terminate_line {line : Bytes} (none : newline ∉ line) :
    terminate line = line ++ [newline] ∧ terminate (line ++ [newline]) = line ++ [newline] := by
  have last : line.getLast? ≠ some newline := fun found => none (List.mem_of_getLast? found)
  simp [terminate, last]

theorem prefix_line {beginning : Bytes} (whole : newline ∉ beginning) {line : Bytes} :
    beginning <+: line ++ [newline] ↔ beginning <+: line := by
  refine ⟨fun starts => ?_, fun starts => starts.trans (List.prefix_append _ _)⟩
  rcases List.prefix_concat_iff.mp starts with same | starts
  · exact absurd (by rw [same]; simp) whole
  · exact starts

theorem isKept_line (line : Bytes) : isKept (line ++ [newline]) = isKept line := by
  have whole : ∀ beginning ∈ markerPrefixes, newline ∉ beginning := by decide
  rw [Bool.eq_iff_iff, isKept, isKept, List.any_eq_true, List.any_eq_true]
  refine exists_congr fun beginning => and_congr_right fun listed => ?_
  rw [decide_eq_true_eq, decide_eq_true_eq, prefix_line (whole beginning listed)]

/-- The pieces of a text, kept and without their breaks. -/
theorem kept_pieces (text : Bytes) :
    ∃ lines, (∀ line ∈ lines, newline ∉ line) ∧
      (pieces newline readLimit text 0).map strip = lines ∧
      ((pieces newline readLimit text 0).filter isKept).map terminate =
        (lines.filter isKept).map (· ++ [newline]) := by
  refine ⟨_, fun line listed => ?_, rfl, ?_⟩
  · obtain ⟨piece, read, rfl⟩ := List.mem_map.mp listed
    obtain ⟨-, line, none, rfl | rfl⟩ := pieces_some readLimit_pos read
    · rwa [(strip_line none).1]
    · rwa [(strip_line none).2]
  · rw [List.filter_map, List.map_map]
    have kept : ∀ piece ∈ pieces newline readLimit text 0,
        (isKept ∘ strip) piece = isKept piece := by
      intro piece read
      obtain ⟨-, line, none, rfl | rfl⟩ := pieces_some readLimit_pos read
      · rw [Function.comp_apply, (strip_line none).1]
      · rw [Function.comp_apply, (strip_line none).2, isKept_line]
    rw [List.filter_congr kept]
    refine List.map_congr_left fun piece listed => ?_
    obtain ⟨-, line, none, rfl | rfl⟩ := pieces_some readLimit_pos (List.mem_filter.mp listed).1
    · rw [Function.comp_apply, (strip_line none).1, (terminate_line none).1]
    · rw [Function.comp_apply, (strip_line none).2, (terminate_line none).2]

/-- Among pieces, the marker lines before a start are those of the pieces before it. -/
theorem markersBefore_append {start position : ℕ} {first : List Bytes} (second : List Bytes)
    (some : ∀ piece ∈ first, piece ≠ []) (exact : position + first.flatten.length = start) :
    markersBefore start position (first ++ second) =
      ((first.filter isKept).map terminate, start + second.flatten.length) := by
  induction first generalizing position with
  | nil =>
    obtain rfl : position = start := by simpa using exact
    clear exact
    have late : ∀ later, position ≤ later → markersBefore position later second =
        ([], later + second.flatten.length) := by
      induction second with
      | nil => intro later _; simp [markersBefore]
      | cons piece second ih =>
        intro later after
        rw [markersBefore, ih _ (by omega)]
        dsimp only
        rw [if_neg (by omega), List.flatten_cons, List.length_append, Nat.add_assoc]
    rw [List.nil_append, late position (le_refl _)]
    rfl
  | cons piece first ih =>
    have positive := List.length_pos_of_ne_nil (some piece List.mem_cons_self)
    rw [List.flatten_cons, List.length_append] at exact
    rw [List.cons_append, markersBefore, ih
      (fun other listed => some other (List.mem_cons_of_mem _ listed)) (by omega)]
    dsimp only
    have before : position < start := by omega
    by_cases kept : isKept piece
    · simp [before, kept]
    · simp [kept]

/-- What a rotation does: the whole log aside, and a note, the kept lines and the tail. -/
theorem rotate_exact (labels : Labels) (content : Bytes) (tailBytes : ℕ) :
    ∃ markers tail, rotate labels content tailBytes =
      .ok ⟨content, noteLine labels content.length markers tail ++ [newline] ++
        unlines newline (keptLines content tailBytes) ++
        content.drop (tailStart content tailBytes)⟩ := by
  obtain ⟨within, boundary⟩ := tailStart_boundary content tailBytes
  generalize started : tailStart content tailBytes = start at within boundary
  have split : content.take start ++ content.drop start = content := List.take_append_drop _ _
  have read : pieces newline readLimit content 0 =
      pieces newline readLimit (content.take start) 0 ++
        pieces newline readLimit (content.drop start) 0 := by
    rcases boundary with empty | broken | last
    · rw [empty, List.nil_append] at split
      rw [empty, split]
      rfl
    · conv_lhs => rw [← split]
      exact pieces_append readLimit_pos (.inr broken) _
    · subst last
      simp [pieces]
  obtain ⟨lines, whole, same, kept⟩ := kept_pieces (content.take start)
  have exact : 0 + (pieces newline readLimit (content.take start) 0).flatten.length = start := by
    rw [pieces_flatten readLimit_pos, List.length_take]
    omega
  have marked := markersBefore_append (pieces newline readLimit (content.drop start) 0)
    (fun piece listed => (pieces_some readLimit_pos listed).1) exact
  rw [← read, pieces_flatten readLimit_pos, List.length_drop] at marked
  have total : start + (content.length - start) = content.length := by omega
  have ended : (content.drop start).take (content.length - start) = content.drop start :=
    List.take_of_length_le (by simp)
  refine ⟨((lines.filter isKept).map (· ++ [newline])).length, (content.drop start).length, ?_⟩
  unfold rotate
  dsimp only
  rw [started, marked, kept, ended]
  dsimp only
  rw [if_neg (by simpa using total), pieces_flatten readLimit_pos, keptLines, started, same]
  rfl

theorem latestRunMarkers_eq (content : Bytes) :
    latestRunMarkers reader content content.length =
      readMarkers reader ⟨none, false, false, false⟩ (content.splitOn newline).reverse := by
  rw [latestRunMarkers, reverseLines_eq (by decide) (le_refl _) (le_refl _) List.not_mem_nil,
    List.take_length, List.append_nil]

/-- A line that the monitor passes over. -/
def IsQuiet (raw : Bytes) : Prop := isPartialLine raw = false ∧ isMarkerLine raw = false

theorem readMarkers_quiet {raw : Bytes} (quiet : IsQuiet raw) (seen : Seen) (rest : List Bytes) :
    readMarkers reader seen (raw :: rest) = readMarkers reader seen rest := by
  rw [readMarkers, if_neg (by simp [quiet.1]), if_neg (by simp [quiet.2])]

theorem readMarkers_append_quiet {raw : Bytes} (quiet : IsQuiet raw) (seen : Seen)
    (lines : List Bytes) :
    readMarkers reader seen (lines ++ [raw]) = readMarkers reader seen lines := by
  induction lines generalizing seen with
  | nil => exact readMarkers_quiet reader quiet seen []
  | cons first lines ih =>
    simp only [List.cons_append, readMarkers, ih]

theorem quiet_nil : IsQuiet [] := by
  constructor <;> decide

/-- The log reads as its lines before the tail and in it. -/
theorem latestRunMarkers_content (content : Bytes) (tailBytes : ℕ) :
    latestRunMarkers reader content content.length =
      readMarkers reader ⟨none, false, false, false⟩ (newestLines content tailBytes) := by
  rw [latestRunMarkers_eq]
  obtain ⟨within, boundary⟩ := tailStart_boundary content tailBytes
  have split : content.take (tailStart content tailBytes) ++
      content.drop (tailStart content tailBytes) = content := List.take_append_drop _ _
  unfold newestLines headLines tailLines
  generalize started : tailStart content tailBytes = start at within boundary split
  obtain ⟨lines, last, whole, ended, same⟩ := exists_unlines newline (content.take start)
  by_cases empty : last = []
  · subst empty
    rw [List.append_nil] at same
    have head : (content.take start).splitOn newline = lines ++ [[]] := by
      rw [same]
      simpa using splitOn_unlines whole []
    have all : content.splitOn newline = lines ++ (content.drop start).splitOn newline := by
      conv_lhs => rw [← split, same, splitOn_unlines whole]
    simp [head, all]
  · have ends : (content.take start).getLast? ≠ some newline := by
      rw [same, List.getLast?_append_of_ne_nil _ empty]
      exact fun found => ended (List.mem_of_getLast? found)
    have some : content.take start ≠ [] := by
      rw [same]
      simp [empty]
    obtain rfl : start = content.length :=
      (boundary.resolve_left some).resolve_left ends
    rw [List.take_length] at same
    have all : content.splitOn newline = lines ++ [last] := by
      rw [same, splitOn_unlines whole, List.splitOn_eq_singleton ended]
    simp [all, empty, readMarkers_quiet reader quiet_nil]

theorem keptLines_whole (content : Bytes) (tailBytes : ℕ) :
    ∀ line ∈ keptLines content tailBytes, newline ∉ line := by
  obtain ⟨lines, whole, same, -⟩ := kept_pieces (content.take (tailStart content tailBytes))
  intro line listed
  rw [keptLines, same] at listed
  exact whole line (List.mem_filter.mp listed).1

theorem digits_line (count : ℕ) : newline ∉ digits count := by
  intro listed
  obtain ⟨character, digit, same⟩ := List.mem_map.mp listed
  have figure := Nat.isDigit_of_mem_toDigits (by decide) (by decide) digit
  rw [Char.isDigit, Bool.and_eq_true, decide_eq_true_eq, decide_eq_true_eq] at figure
  have low := UInt32.le_iff_toNat_le.mp figure.1
  have high := UInt32.le_iff_toNat_le.mp figure.2
  have exact := congrArg UInt8.toNat same
  have code : (byte character).toNat = character.toNat % 256 := by simp [byte]
  rw [code] at exact
  change 48 ≤ character.toNat at low
  change character.toNat ≤ 57 at high
  change character.toNat % 256 = 10 at exact
  omega

theorem removeLog_line {name : Bytes} (whole : newline ∉ name) : newline ∉ removeLog name := by
  unfold removeLog
  split
  · exact fun listed => whole (List.mem_of_mem_take listed)
  · exact whole

theorem noteLine_line (labels : Labels) (size markers tail : ℕ) :
    newline ∉ noteLine labels size markers tail := by
  have words : ∀ text ∈ [ascii "--- log-retention ", ascii ": ",
      ascii " bytes rotated to rotated/", ascii "-", ascii ".log.gz; kept ",
      ascii " earlier run-marker lines and the last ", ascii " bytes ---"],
      newline ∉ text := by decide
  simp only [List.forall_mem_cons, List.not_mem_nil, false_imp_iff, implies_true,
    and_true] at words
  obtain ⟨opened, sized, moved, dashed, counted, tailed, closed⟩ := words
  simp only [noteLine, List.mem_append, not_or]
  exact ⟨⟨⟨⟨⟨⟨⟨⟨⟨⟨⟨⟨opened, labels.stamp_line⟩, sized⟩, digits_line size⟩, moved⟩,
    removeLog_line labels.name_line⟩, dashed⟩, labels.stamp_line⟩, counted⟩,
    digits_line markers⟩, tailed⟩, digits_line tail⟩, closed⟩

theorem noteLine_quiet (labels : Labels) (size markers tail : ℕ) :
    IsQuiet (noteLine labels size markers tail) := by
  obtain ⟨rest, same⟩ : ∃ rest, noteLine labels size markers tail = byte '-' :: rest :=
    ⟨_, by simp only [noteLine, ascii, List.append_assoc]; rfl⟩
  rw [same]
  constructor
  · simp [isPartialLine, ascii, byte]
  · simp [isMarkerLine, isPartialLine, ascii, byte]

theorem latestRunMarkers_body (labels : Labels) (content : Bytes) (tailBytes markers tail : ℕ) :
    let body := noteLine labels content.length markers tail ++ [newline] ++
      unlines newline (keptLines content tailBytes) ++ content.drop (tailStart content tailBytes)
    latestRunMarkers reader body body.length =
      readMarkers reader ⟨none, false, false, false⟩ (newestLeft content tailBytes) := by
  intro body
  have split : body.splitOn newline =
      noteLine labels content.length markers tail ::
        (keptLines content tailBytes ++ tailLines content tailBytes) := by
    show (_ ++ [newline] ++ _ ++ _).splitOn newline = _
    rw [List.append_assoc, List.append_assoc, List.singleton_append,
      List.splitOn_append_cons_self_of_not_mem (noteLine_line labels _ _ _),
      splitOn_unlines (keptLines_whole content tailBytes)]
    rfl
  rw [latestRunMarkers_eq, split, List.reverse_cons, List.reverse_append,
    readMarkers_append_quiet reader (noteLine_quiet labels _ _ _), newestLeft]

variable (content : Bytes) (tailBytes : ℕ)

/-- If the latest run has a start and is marked as partial, it is so in the tail. -/
def PartialKept : Prop :=
  ∀ start, opening reader (newestLines content tailBytes) = some (some start) →
    (∃ raw ∈ currentRun reader (newestLines content tailBytes), isPartialLine raw) →
      ∃ raw ∈ currentRun reader (tailLines content tailBytes).reverse, isPartialLine raw

/-- The lines left mark the latest run as the lines of the log do. -/
structure MarkersKept : Prop where
  opens : opening reader (newestLeft content tailBytes) =
    opening reader (newestLines content tailBytes)
  terminal : opening reader (newestLines content tailBytes) ≠ some none →
    (terminals reader (currentRun reader (newestLeft content tailBytes))).head? =
      (terminals reader (currentRun reader (newestLines content tailBytes))).head?
  error : ∀ start, opening reader (newestLines content tailBytes) = some (some start) →
    runError reader (currentRun reader (newestLeft content tailBytes)) =
      runError reader (currentRun reader (newestLines content tailBytes))
  isPartial : PartialKept reader content tailBytes

variable {content tailBytes}

theorem currentRun_append (first second : List Bytes) :
    currentRun reader (first ++ second) =
      if (opening reader first).isSome then currentRun reader first
      else currentRun reader first ++ currentRun reader second := by
  induction first with
  | nil => simp [opening, currentRun]
  | cons raw first ih =>
    rw [List.cons_append, currentRun, currentRun, opening, List.findSome?_cons]
    cases opened : opens reader raw with
    | some start => simp
    | none =>
      simp only [Option.isSome_none, Bool.false_eq_true, if_false, ih]
      rw [opening]
      split <;> simp

theorem currentRun_subset {lines : List Bytes} {raw : Bytes}
    (listed : raw ∈ currentRun reader lines) : raw ∈ lines := by
  induction lines with
  | nil => exact listed
  | cons first lines ih =>
    rw [currentRun] at listed
    split at listed
    · exact List.mem_cons.mpr (.inl (List.mem_singleton.mp listed))
    · exact List.mem_cons.mpr ((List.mem_cons.mp listed).imp id ih)

theorem isKept_notPartial {raw : Bytes} (kept : isKept raw) : isPartialLine raw = false := by
  obtain ⟨beginning, listed, starts⟩ := List.any_eq_true.mp kept
  rw [decide_eq_true_eq] at starts
  by_contra isPartial
  rw [Bool.not_eq_false, isPartialLine, decide_eq_true_eq] at isPartial
  cases raw with
  | nil =>
    rw [List.prefix_nil] at isPartial
    exact absurd isPartial (by decide)
  | cons first raw =>
    have same : first = byte 'P' := (List.cons_prefix_cons.mp isPartial).1.symm
    simp only [markerPrefixes, List.mem_cons, List.not_mem_nil, or_false] at listed
    rcases listed with rfl | rfl | rfl
    · exact absurd ((List.cons_prefix_cons.mp starts).1.trans same) (by decide)
    · exact absurd ((List.cons_prefix_cons.mp starts).1.trans same) (by decide)
    · exact absurd ((List.cons_prefix_cons.mp starts).1.trans same) (by decide)

/-- No kept line marks a run as partial; only those of the tail do. -/
theorem left_partial_iff :
    (∃ raw ∈ currentRun reader (newestLeft content tailBytes), isPartialLine raw) ↔
      ∃ raw ∈ currentRun reader (tailLines content tailBytes).reverse, isPartialLine raw := by
  have silent : ∀ raw ∈ currentRun reader (keptLines content tailBytes).reverse,
      isPartialLine raw = false := fun raw listed =>
    isKept_notPartial (List.mem_filter.mp
      (List.mem_reverse.mp (currentRun_subset reader listed))).2
  rw [newestLeft, currentRun_append]
  split
  · rfl
  · constructor
    · rintro ⟨raw, listed, isPartial⟩
      rcases List.mem_append.mp listed with listed | listed
      · exact ⟨raw, listed, isPartial⟩
      · rw [silent raw listed] at isPartial
        contradiction
    · rintro ⟨raw, listed, isPartial⟩
      exact ⟨raw, List.mem_append_left _ listed, isPartial⟩

theorem tail_partial {raw : Bytes}
    (listed : raw ∈ currentRun reader (tailLines content tailBytes).reverse) :
    raw ∈ currentRun reader (newestLines content tailBytes) := by
  rw [newestLines, currentRun_append]
  split
  · exact listed
  · exact List.mem_append_left _ listed

theorem any_partial_eq_iff :
    (currentRun reader (newestLeft content tailBytes)).any isPartialLine =
        (currentRun reader (newestLines content tailBytes)).any isPartialLine ↔
      ((∃ raw ∈ currentRun reader (newestLines content tailBytes), isPartialLine raw) →
        ∃ raw ∈ currentRun reader (tailLines content tailBytes).reverse, isPartialLine raw) := by
  rw [Bool.eq_iff_iff, List.any_eq_true, List.any_eq_true, left_partial_iff]
  exact ⟨fun same => same.mpr, fun kept =>
    ⟨fun ⟨raw, listed, isPartial⟩ => ⟨raw, tail_partial reader listed, isPartial⟩, kept⟩⟩

/-- The monitor reads the same markers exactly if they are kept. -/
theorem markers_eq_iff :
    readMarkers reader ⟨none, false, false, false⟩ (newestLeft content tailBytes) =
        readMarkers reader ⟨none, false, false, false⟩ (newestLines content tailBytes) ↔
      MarkersKept reader content tailBytes := by
  rw [readMarkers_run, readMarkers_run]
  constructor
  · intro same
    have opens : opening reader (newestLeft content tailBytes) =
        opening reader (newestLines content tailBytes) := by
      revert same
      rcases opening reader (newestLeft content tailBytes) with _ | _ | start <;>
        rcases opening reader (newestLines content tailBytes) with _ | _ | other <;>
        simp +contextual
    rw [opens] at same
    refine ⟨opens, fun formed => ?_, fun start opened => ?_, fun start opened => ?_⟩
    · rcases opened : opening reader (newestLines content tailBytes) with _ | _ | start
      · rw [opened] at same
        exact congrArg Markers.terminal same
      · exact absurd opened formed
      · rw [opened] at same
        exact congrArg Markers.terminal same
    · rw [opened] at same
      exact congrArg Markers.error same
    · rw [opened] at same
      exact (any_partial_eq_iff reader).mp (congrArg Markers.isPartial same)
  · intro kept
    rw [kept.opens]
    rcases opened : opening reader (newestLines content tailBytes) with _ | _ | start
    · simp only [kept.terminal (by simp [opened])]
    · rfl
    · simp only [kept.terminal (by simp [opened]), kept.error start opened,
        (any_partial_eq_iff reader).mpr (kept.isPartial start opened)]

theorem opening_filter (lines : List Bytes) :
    opening reader (lines.filter isMarkerLine) = opening reader lines := by
  induction lines with
  | nil => rfl
  | cons raw lines ih =>
    unfold opening at ih ⊢
    by_cases marker : isMarkerLine raw
    · rw [List.filter_cons_of_pos marker, List.findSome?_cons, List.findSome?_cons,
        ih]
    · have quiet : opens reader raw = none := by simp [opens, marker]
      rw [List.filter_cons_of_neg marker, List.findSome?_cons, quiet, ih]

theorem currentRun_filter (lines : List Bytes) :
    currentRun reader (lines.filter isMarkerLine) =
      (currentRun reader lines).filter isMarkerLine := by
  induction lines with
  | nil => rfl
  | cons raw lines ih =>
    by_cases marker : isMarkerLine raw
    · rw [List.filter_cons_of_pos marker, currentRun, currentRun, ih]
      split <;> simp [marker]
    · have quiet : opens reader raw = none := by simp [opens, marker]
      rw [List.filter_cons_of_neg marker, currentRun, quiet, ih]
      simp [marker]

theorem terminals_filter (run : List Bytes) :
    terminals reader (run.filter isMarkerLine) = terminals reader run := by
  unfold terminals
  rw [List.filterMap_filter]
  refine List.filterMap_congr fun raw _ => ?_
  by_cases marker : isMarkerLine raw <;> simp [marker, terminalOf]

theorem runError_filter (run : List Bytes) :
    runError reader (run.filter isMarkerLine) = runError reader run := by
  have same : (run.filter isMarkerLine).any (isMalformed reader) =
      run.any (isMalformed reader) := by
    rw [List.any_filter]
    refine List.any_congr rfl fun raw => ?_
    simp [isMalformed]
  rw [runError, runError, same, terminals_filter]

/-- Lines before the tail that are read in one piece. -/
def ShortLines (content : Bytes) (tailBytes : ℕ) : Prop :=
  ∀ line ∈ headLines content tailBytes, line.length < readLimit

theorem keptLines_of_short (short : ShortLines content tailBytes) :
    keptLines content tailBytes = (headLines content tailBytes).filter isKept := by
  unfold ShortLines at short
  unfold keptLines
  congr 1
  unfold headLines at short ⊢
  dsimp only at short ⊢
  generalize content.take (tailStart content tailBytes) = before at short ⊢
  obtain ⟨lines, last, whole, ended, rfl⟩ := exists_unlines newline before
  have head : (unlines newline lines ++ last).splitOn newline = lines ++ [last] := by
    rw [splitOn_unlines whole, List.splitOn_eq_singleton ended]
  have stripped : (lines.map (· ++ [newline])).map strip = lines := by
    rw [List.map_map]
    conv_rhs => rw [← List.map_id lines]
    exact List.map_congr_left fun line listed => (strip_line (whole line listed)).2
  rw [head] at short ⊢
  by_cases empty : last = []
  · subst empty
    simp only [List.getLast?_concat, if_true, List.dropLast_concat] at short ⊢
    rw [pieces_unlines whole short, List.map_append, stripped]
    simp [pieces]
  · have other : ¬(lines ++ [last]).getLast? = some [] := by simp [empty]
    rw [if_neg other] at short ⊢
    have first : ∀ line ∈ lines, line.length < readLimit := fun line listed =>
      short line (List.mem_append_left _ listed)
    rw [pieces_unlines whole first, pieces_last readLimit_pos ended
      (short last (by simp)).le empty, List.map_append, stripped, List.map_singleton,
      (strip_line ended).1]

/-- Short lines keep everything but the mark of a partial run. -/
theorem markersKept_of_short (short : ShortLines content tailBytes) :
    MarkersKept reader content tailBytes ↔ PartialKept reader content tailBytes := by
  have markers : ∀ raw, isMarkerLine raw → isKept raw := by
    intro raw marker
    simp only [isMarkerLine, Bool.and_eq_true, Bool.or_eq_true, decide_eq_true_eq] at marker
    simp only [isKept, markerPrefixes, List.any_cons, Bool.or_eq_true, decide_eq_true_eq]
    tauto
  have same : (newestLeft content tailBytes).filter isMarkerLine =
      (newestLines content tailBytes).filter isMarkerLine := by
    have head : ((headLines content tailBytes).filter isKept).filter isMarkerLine =
        (headLines content tailBytes).filter isMarkerLine := by
      rw [List.filter_filter]
      refine List.filter_congr fun raw _ => ?_
      by_cases marker : isMarkerLine raw <;> simp [marker, markers]
    rw [newestLeft, newestLines, keptLines_of_short short]
    simp only [List.filter_append, List.filter_reverse, head]
  have opens : opening reader (newestLeft content tailBytes) =
      opening reader (newestLines content tailBytes) := by
    rw [← opening_filter, same, opening_filter]
  have run : (currentRun reader (newestLeft content tailBytes)).filter isMarkerLine =
      (currentRun reader (newestLines content tailBytes)).filter isMarkerLine := by
    rw [← currentRun_filter, same, currentRun_filter]
  refine ⟨MarkersKept.isPartial, fun isPartial => ⟨opens, fun _ => ?_, fun _ _ => ?_, isPartial⟩⟩
  · rw [← terminals_filter, run, terminals_filter]
  · rw [← runError_filter, run, runError_filter]

/-- Rotation archives the log as it was and leaves the same markers and the same status. -/
def Invisible (labels : Labels) (content : Bytes) (tailBytes : ℕ) : Prop :=
  ∃ rotated, rotate labels content tailBytes = .ok rotated ∧ rotated.archive = content ∧
    latestRunMarkers reader rotated.body rotated.body.length =
      latestRunMarkers reader content content.length ∧
    ∀ view, driverStatus reader view rotated.body = driverStatus reader view content

theorem driverStatus_of_markers {first second : Bytes} (view : View) (some₁ : first ≠ [])
    (some₂ : second ≠ [])
    (same : latestRunMarkers reader first first.length =
      latestRunMarkers reader second second.length) :
    driverStatus reader view first = driverStatus reader view second := by
  have long₁ : first.length ≠ 0 := (List.length_pos_of_ne_nil some₁).ne'
  have long₂ : second.length ≠ 0 := (List.length_pos_of_ne_nil some₂).ne'
  rw [driverStatus, driverStatus, if_neg long₁, if_neg long₂, same]

theorem driverStatus_isSome {content : Bytes} (view : View) (some : content ≠ []) :
    (driverStatus reader view content).isSome := by
  have long : content.length ≠ 0 := (List.length_pos_of_ne_nil some).ne'
  rw [driverStatus, if_neg long]
  dsimp only
  split <;> rfl

theorem rotate_left (labels : Labels) (content : Bytes) (tailBytes : ℕ) :
    ∃ rotated, rotate labels content tailBytes = .ok rotated ∧ rotated.archive = content ∧
      rotated.body ≠ [] ∧ latestRunMarkers reader rotated.body rotated.body.length =
        readMarkers reader ⟨none, false, false, false⟩ (newestLeft content tailBytes) := by
  obtain ⟨markers, tail, rotated⟩ := rotate_exact labels content tailBytes
  exact ⟨_, rotated, rfl, by simp,
    latestRunMarkers_body reader labels content tailBytes markers tail⟩

/-- Bytes as the characters of their numbers, as ASCII is decoded. -/
def asciiReader : Reader where
  decode bytes := bytes.map fun code => Char.ofNat code.toNat
  decimals := figures

def nightlyLabels : Labels where
  name := ascii "cron.log"
  stamp := ascii "20261020T100800Z"
  name_line := by decide
  stamp_line := by decide

/-- A nightly run that left selected jobs pending, and whose last line is the tail. -/
def partialRun : Bytes :=
  ascii "=== run_daily 2026-10-19T22:30:01Z ===\n" ++ ascii "PARTIAL: 2 pending\n" ++
    ascii "=== done 2026-10-20T01:00:00Z ===\n"

end TradingEngine.LogRotation
