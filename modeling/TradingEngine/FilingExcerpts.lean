import TradingEngine.LaneGlobs

/-!
# Excerpts of a filing

A complete submission has one primary document and at most one selected exhibit. The headings
of the primary text are found by a regular expression; the section of a recognised heading
runs to the next heading. Sections share one budget of characters and the exhibit has its
own. An excerpt that does not fit is cut back to the last line break within what is left.

The stages before the selection, the text of a document, digests and the classes of characters
are given by a `World`.
-/

namespace TradingEngine.Filings

open Lanes (Text)

abbrev Error := String

abbrev Bytes := List UInt8

/-- One document of the envelope. -/
structure Document where
  kind : Text
  filename : Text
  description : Text
  body : Bytes

/-- What a call of the normalization is given. -/
structure Submission where
  raw : Bytes
  cik : Text
  accession : Text
  receivedAt : Text
  primaryFilename : Option Text := none
  metadataItems : Option (List Text) := none
  indexLabels : List (Text × Text) := []
  jsonAcceptance : Option Text := none
  indexAcceptance : Option Text := none
  encoding : Text := ['u', 't', 'f', '-', '8']

/-- The fields that identify an excerpt, with offsets into the normalized text. -/
structure Lineage where
  sourceSha256 : Text
  filename : Text
  normalizedSha256 : Text
  start : ℕ
  stop : ℕ

structure Span extends Lineage where
  evidenceId : Text
  text : Text

/-- A part of a document that has no excerpt. -/
structure Omission where
  filename : Text
  start : ℕ
  stop : ℕ

/-- No digit and no match of a letter is a space. -/
structure World where
  isSpace : Char → Bool
  isDigit : Char → Bool
  isWord : Char → Bool
  /-- Whether a letter of a pattern matches a character when case is ignored. -/
  matchesLetter : Char → Char → Bool
  /-- The checks of the envelope and of the times of acceptance, and its documents. -/
  receive : Submission → Except Error (List Document)
  visibleText : Bytes → Text → Except Error Text
  sourceDigest : Bytes → Text
  textDigest : Text → Text
  evidenceId : Lineage → Text

/-- The recognised items, sorted. -/
def events : List Text :=
  [['1', '.', '0', '1'], ['2', '.', '0', '1'], ['2', '.', '0', '2'], ['5', '.', '0', '2'],
    ['7', '.', '0', '1'], ['8', '.', '0', '1']]

def safeFilename (value : Text) : Except Error Text :=
  match value with
  | [] => .error "unsafe SEC basename"
  | first :: rest =>
    if first.isAlphanum && rest.length ≤ 199 &&
        rest.all (fun character => character.isAlphanum || character ∈ ['_', '.', '-']) &&
        !(['.', '.'] <:+: value : Bool) then
      .ok value
    else
      .error "unsafe SEC basename"

/-- Whether a label names the exhibit 99.1, with no digit on either side. -/
def labels991 : (digitBefore : Bool) → Text → Bool
  | _, [] => false
  | digitBefore, character :: rest =>
    (!digitBefore && ['9', '9', '.', '1'].isPrefixOf (character :: rest) &&
      !((character :: rest).drop 4).head?.any Char.isDigit) ||
    labels991 character.isDigit rest

/-- What follows a word. -/
def World.afterWord (world : World) : (word text : Text) → Option Text
  | [], text => some text
  | _ :: _, [] => none
  | letter :: word, character :: text =>
    if world.matchesLetter letter character then world.afterWord word text else none

/-- The words `press release` at the start of a text, with a boundary after them. -/
def World.startsPressRelease (world : World) (text : Text) : Bool :=
  match world.afterWord ['p', 'r', 'e', 's', 's'] text with
  | none => false
  | some rest =>
    rest.head?.any world.isSpace &&
    match world.afterWord ['r', 'e', 'l', 'e', 'a', 's', 'e'] (rest.dropWhile world.isSpace) with
    | none => false
    | some rest => !rest.head?.any world.isWord

def World.mentionsPressRelease (world : World) : (wordBefore : Bool) → Text → Bool
  | _, [] => false
  | wordBefore, character :: rest =>
    (!wordBefore && world.startsPressRelease (character :: rest)) ||
    world.mentionsPressRelease (world.isWord character) rest

def Submission.label (submission : Submission) (document : Document) : Text :=
  (submission.indexLabels.lookup document.filename).getD []

inductive ExhibitStatus where
  | ex991 | absent | ex99Sole

/-- A selected document with its normalized text. -/
structure Normalized where
  filename : Text
  text : Text
  normalizedSha256 : Text
  supported : Bool

structure Selection where
  primary : Normalized
  exhibit : Option Normalized
  exhibitStatus : ExhibitStatus
  sourceSha256 : Text

def primaryDocuments (submission : Submission) (documents : List Document) :
    Except Error (List Document) :=
  let primaries := documents.filter fun document =>
    document.kind ∈ [['8', '-', 'K'], ['8', '-', 'K', '/', 'A']]
  match submission.primaryFilename with
  | none => .ok primaries
  | some name => primaries.filterM fun document => do
      return document.filename == (← safeFilename name)

/-- The exhibits whose type, or else whose label, is 99.1. -/
def numberedExhibits (submission : Submission) (documents : List Document) : List Document :=
  let typed := documents.filter fun document =>
    document.kind = ['E', 'X', '-', '9', '9', '.', '1']
  if typed = [] then documents.filter fun document => labels991 false (submission.label document)
  else typed

/-- Without a numbered exhibit, the only generic one when it is a press release. -/
def World.genericExhibit (world : World) (submission : Submission) (documents : List Document) :
    Except Error (Option Document × ExhibitStatus) :=
  match documents.filter fun document => document.kind = ['E', 'X', '-', '9', '9'] with
  | [] => .ok (none, .absent)
  | [candidate] =>
    if world.mentionsPressRelease false
        (candidate.description ++ ' ' :: submission.label candidate) then
      .ok (some candidate, .ex99Sole)
    else
      .ok (none, .absent)
  | _ => .error "ambiguous generic EX-99 exhibits"

def World.selectDocuments (world : World) (submission : Submission) (documents : List Document) :
    Except Error (Document × Option Document × ExhibitStatus) := do
  let primaries ← primaryDocuments submission documents
  match primaries, numberedExhibits submission documents with
  | [primary], [exhibit] => return (primary, some exhibit, .ex991)
  | [primary], [] =>
    let (exhibit, status) ← world.genericExhibit submission documents
    return (primary, exhibit, status)
  | _, _ => throw "missing or ambiguous primary/exhibit 99.1"

/-- Whether a document's text can be read: its name ends as a text's does, and it is no PDF. -/
def Document.supported (document : Document) : Bool :=
  let name := document.filename.map Char.toLower
  let body := document.body.dropWhile (· ∈ [0x20, 0x09, 0x0A, 0x0D, 0x0B, 0x0C])
  let endings : List Text := [['.', 'h', 't', 'm'], ['.', 'h', 't', 'm', 'l'], ['.', 't', 'x', 't']]
  endings.any (·.isSuffixOf name) && !([0x25, 0x50, 0x44, 0x46].isPrefixOf body)

def World.normalizedText (world : World) (document : Document) (encoding : Text) :
    Except Error Text :=
  if document.supported then world.visibleText document.body encoding else .ok []

def World.normalize (world : World) (encoding : Text) (document : Document) :
    Except Error Normalized := do
  let text ← world.normalizedText document encoding
  return ⟨document.filename, text, world.textDigest text, document.supported⟩

def World.select (world : World) (submission : Submission) : Except Error Selection := do
  let documents ← world.receive submission
  let (primary, exhibit, status) ← world.selectDocuments submission documents
  let primary ← world.normalize submission.encoding primary
  let exhibit ← exhibit.mapM (world.normalize submission.encoding)
  return ⟨primary, exhibit, status, world.sourceDigest submission.raw⟩

structure Heading where
  start : ℕ
  item : Text

/-- The regular expression of a heading at the start of a line, as the item it names and the
number of characters it consumes. The spaces after the item are given back by one when a digit
follows them, for the expression must not end before a digit. -/
def World.matchHeading (world : World) (text : Text) : Option (Text × ℕ) :=
  match world.afterWord ['i', 't', 'e', 'm'] (text.dropWhile world.isSpace) with
  | none => none
  | some named =>
    match named.takeWhile world.isSpace, named.dropWhile world.isSpace with
    | _ :: spaces, major :: '.' :: tens :: units :: rest =>
      if world.isDigit major && world.isDigit tens && world.isDigit units then
        let width := (text.takeWhile world.isSpace).length + 4 + (spaces.length + 1) + 4
        let trailing := (rest.takeWhile world.isSpace).length
        if !(rest.dropWhile world.isSpace).head?.any world.isDigit then
          some ([major, '.', tens, units], width + trailing)
        else if trailing = 0 then none
        else some ([major, '.', tens, units], width + (trailing - 1))
      else none
    | _, _ => none

/-- The headings of a text from a position on. `passed` counts the characters of the last
match that are still to be passed over. -/
def World.headingsFrom (world : World) :
    (position : ℕ) → (lineStart : Bool) → (passed : ℕ) → Text → List Heading
  | _, _, _, [] => []
  | position, _, passed + 1, character :: rest =>
    world.headingsFrom (position + 1) (character == '\n') passed rest
  | position, lineStart, 0, character :: rest =>
    match if lineStart then world.matchHeading (character :: rest) else none with
    | some (item, width) =>
      ⟨position, item⟩ :: world.headingsFrom (position + 1) (character == '\n') (width - 1) rest
    | none => world.headingsFrom (position + 1) (character == '\n') 0 rest

def World.headings (world : World) (text : Text) : List Heading := world.headingsFrom 0 true 0 text

def slice (text : Text) (start stop : ℕ) : Text := (text.take stop).drop start

def lastBreak : Text → Option ℕ
  | [] => none
  | character :: rest =>
    match lastBreak rest with
    | some index => some (index + 1)
    | none => if character = '\n' then some 0 else none

/-- The last line break of a text between two positions. -/
def rfindBreak (text : Text) (low high : ℕ) : Option ℕ :=
  (lastBreak (slice text low high)).map (low + ·)

/-- Where an excerpt ends. -/
def excerptStop (text : Text) (start stop budget : ℕ) : ℕ :=
  if budget < stop - start then
    match rfindBreak text start (start + budget + 1) with
    | some position => max start position
    | none => start
  else stop

def World.excerpt (world : World) (document : Normalized) (start stop budget : ℕ)
    (sourceSha256 : Text) : Span :=
  let stop := excerptStop document.text start stop budget
  let lineage : Lineage := ⟨sourceSha256, document.filename, document.normalizedSha256, start, stop⟩
  ⟨lineage, world.evidenceId lineage, slice document.text start stop⟩

/-- The lists that the excerpts are gathered in, and what is left of the shared budget. -/
structure Gathered where
  spans : List Span
  omitted : List Omission
  remaining : ℕ

/-- Enter an excerpt of a part of a document that ends at `stop`. -/
def Gathered.enter (gathered : Gathered) (span : Span) (stop : ℕ) : Gathered :=
  let omitted := if span.stop < stop then
    gathered.omitted ++ [⟨span.filename, span.stop, stop⟩] else gathered.omitted
  if span.text = [] then ⟨gathered.spans, omitted, gathered.remaining⟩
  else ⟨gathered.spans ++ [span], omitted, gathered.remaining - span.text.length⟩

/-- Where the section before a list of headings ends. -/
def sectionStop (document : Normalized) : List Heading → ℕ
  | [] => document.text.length
  | next :: _ => next.start

def World.gatherSections (world : World) (document : Normalized) (sourceSha256 : Text) :
    List Heading → Gathered → Gathered
  | [], gathered => gathered
  | heading :: rest, gathered =>
    if heading.item ∉ events then world.gatherSections document sourceSha256 rest gathered
    else
      let stop := sectionStop document rest
      let span := world.excerpt document heading.start stop gathered.remaining sourceSha256
      world.gatherSections document sourceSha256 rest (gathered.enter span stop)

def primaryBudget : ℕ := 8000

def exhibitBudget : ℕ := 32000

/-- The excerpt of the exhibit, entered after the primary's. -/
def World.gatherExhibit (world : World) (selection : Selection) (gathered : Gathered) : Gathered :=
  match selection.exhibit with
  | none => gathered
  | some exhibit =>
    let stop := exhibit.text.length
    gathered.enter (world.excerpt exhibit 0 stop exhibitBudget selection.sourceSha256) stop

inductive Status where
  | ready | extractionUnavailable | unsupportedFormat

structure Filing where
  status : Status
  items : List Text
  bodyItems : List Text
  missingDeclaredItems : List Text
  exhibitStatus : ExhibitStatus
  spans : List Span
  omittedSpans : List Omission
  truncated : Bool

def filingStatus (selection : Selection) (items missing : List Text) (primaryReadable : Bool) :
    Status :=
  if !selection.primary.supported || selection.exhibit.any (!·.supported) then .unsupportedFormat
  else if selection.exhibit.any (·.text = []) then .extractionUnavailable
  else if items ≠ [] ∧ primaryReadable ∧ missing = [] then .ready
  else .extractionUnavailable

def World.filing (world : World) (submission : Submission) (selection : Selection) : Filing :=
  let headings := world.headings selection.primary.text
  let bodyItems := (headings.map Heading.item).dedup.mergeSort (· ≤ ·)
  let declared := submission.metadataItems.getD []
  let items := events.filter (· ∈ bodyItems)
  let missing := events.filter fun item => item ∈ declared ∧ item ∉ bodyItems
  let sections := world.gatherSections selection.primary selection.sourceSha256 headings
    ⟨[], [], primaryBudget⟩
  let gathered := world.gatherExhibit selection sections
  { status := filingStatus selection items missing (sections.spans ≠ [])
    items, bodyItems
    missingDeclaredItems := missing
    exhibitStatus := selection.exhibitStatus
    spans := gathered.spans
    omittedSpans := gathered.omitted
    truncated := gathered.omitted ≠ [] }

def World.normalizeSubmission (world : World) (submission : Submission) : Except Error Filing := do
  let selection ← world.select submission
  return world.filing submission selection

end TradingEngine.Filings
