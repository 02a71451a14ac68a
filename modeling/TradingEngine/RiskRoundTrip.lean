import TradingEngine.RiskDecisions

/-!
# Decisions recompute

What a decision stores of its inputs is read back as the inputs that were evaluated, with
their times in UTC. So a decision is accepted when everything that was computed is finite,
and a decision that is accepted is the one that its inputs are given again.
-/

namespace TradingEngine.PreTrade

open BinaryFloats CheckedRecords Runs
open Broker (GATE_NAMES)

variable {world : World} {policy : RiskPolicy} {identity : RiskIdentity}
  {request : SubmitOrderRequest} {snapshot : PreTradeSnapshot}

/-- What the evaluation of a decision found. -/
structure Evaluated (world : World) (policy : RiskPolicy) (identity : RiskIdentity)
    (request : SubmitOrderRequest) (snapshot : PreTradeSnapshot) (decision : Decision)
    (gates : List Gate) (expires : Datetime) (hashes : Hashes) (sha256 : String) : Prop where
  gated : (gateRows world policy identity request snapshot).mapM
    (fun row => makeGate row.1 row.2.1 row.2.2) = .ok gates
  named : gates.map Gate.name = GATE_NAMES
  expired : (snapshot .observedAt).plus (policy .decisionTtlSeconds) = .ok expires
  inputs : inputHashes world policy identity request snapshot = .ok hashes
  hashed : world.canonicalSha256 (.body (decisionBody world policy identity request snapshot
    gates expires hashes)) = .ok sha256
  decided : decision = {
    toBody := decisionBody world policy identity request snapshot gates expires hashes
    decisionSha256 := .text sha256 }

theorem evaluate_ok {decision : Decision} :
    evaluate world policy identity request snapshot = .ok decision ↔
      ∃ gates expires hashes sha256,
        Evaluated world policy identity request snapshot decision gates expires hashes sha256 := by
  constructor
  · intro evaluated
    obtain ⟨gates, gated, evaluated⟩ := bind_ok.mp evaluated
    split at evaluated
    · cases evaluated
    · rename_i named
      obtain ⟨expires, expired, evaluated⟩ := bind_ok.mp evaluated
      obtain ⟨hashes, inputs, evaluated⟩ := bind_ok.mp evaluated
      obtain ⟨sha256, hashed, decided⟩ := bind_ok.mp evaluated
      exact ⟨gates, expires, hashes, sha256, gated, not_not.mp named, expired, inputs, hashed,
        (Except.ok.inj decided).symm⟩
  · rintro ⟨gates, expires, hashes, sha256, found⟩
    unfold evaluate
    rw [found.gated, found.decided]
    refine bind_ok.mpr ⟨gates, rfl, ?_⟩
    rw [if_neg (not_not.mpr found.named), found.expired, found.inputs]
    change (world.canonicalSha256 _).bind _ = _
    exact bind_ok.mpr ⟨sha256, found.hashed, rfl⟩

theorem inputHashes_ok {hashes : Hashes}
    (found : inputHashes world policy identity request snapshot = .ok hashes) :
    world.canonicalSha256 (.policy (world.payload policySchema policy)) = .ok hashes.policy ∧
      world.canonicalSha256 (.identity (world.payload identitySchema identity)) =
        .ok hashes.identity ∧
      world.canonicalSha256 (.request (world.payload requestSchema request)) =
        .ok hashes.request ∧
      world.canonicalSha256 (.snapshot (world.payload snapshotSchema snapshot)) =
        .ok hashes.snapshot := by
  obtain ⟨_, policyHash, found⟩ := bind_ok.mp found
  obtain ⟨_, identityHash, found⟩ := bind_ok.mp found
  obtain ⟨_, requestHash, found⟩ := bind_ok.mp found
  obtain ⟨_, snapshotHash, found⟩ := bind_ok.mp found
  cases found
  exact ⟨policyHash, identityHash, requestHash, snapshotHash⟩

theorem makeGate_ok {name detail : String} {passed : Bool} {gate : Gate}
    (made : makeGate name passed detail = .ok gate) :
    gate.detail.isEmpty = false ∧ gate.detail.length ≤ 512 := by
  unfold makeGate at made
  split at made
  · cases made
  · rename_i valid
    cases made
    simp only [Bool.or_eq_true, decide_eq_true_eq, not_or, not_lt, Bool.not_eq_true] at valid
    exact ⟨valid.1.2, valid.2⟩

theorem call_write {Field : Type} {Value : Field → Type} {schema : Schema Value}
    {default : Field → Option Atom} {payload : Payload Field} {record : ∀ field, Value field}
    (built : schema.construct (schema.write record) = .ok record)
    (alone : payload.others = [])
    (held : ∀ field, payload.value field = some (schema.write record field)) :
    schema.call default payload = .ok record := by
  have same : payload = .exact (schema.write record) := Payload.ext (funext held) alone
  rw [same, Schema.call_exact, built]

theorem readPolicy_payload (policy : policySchema.Built) :
    readPolicy (world.payload policySchema policy.record) = .ok policy.record := by
  have symbols : allowedSymbols (some (.texts false (policy.record .allowedSymbols))) =
      .ok (.texts true (policy.record .allowedSymbols)) := rfl
  unfold readPolicy
  refine bind_ok.mpr ⟨_, symbols, ?_⟩
  refine call_write policy.built rfl fun field => ?_
  cases field <;> rfl

theorem call_identity (identity : identitySchema.Built) :
    identitySchema.call (fun _ => none) (world.payload identitySchema identity.record) =
      .ok identity.record := by
  refine call_write identity.built rfl fun field => ?_
  cases field <;> rfl

theorem readRequest_payload (request : requestSchema.Built) :
    readRequest world (world.payload requestSchema request.record) = .ok request.record := by
  have signalDate : readDate world "signal_date"
      (some (.text (world.isoDate (request.record .signalDate)))) =
        .ok (.date (request.record .signalDate)) := by
    simp only [readDate, readEntry, world.strptime_isoDate]
  refine bind_ok.mpr ⟨.date (request.record .signalDate), signalDate, ?_⟩
  refine call_write request.built rfl fun field => ?_
  cases field <;> rfl

/-- A snapshot with its times in UTC. -/
def inUtc (snapshot : PreTradeSnapshot) : PreTradeSnapshot
  | .observedAt => .utc (snapshot .observedAt).wall
  | .quoteAt => .utc (snapshot .quoteAt).wall
  | .reconciliationAt => .utc (snapshot .reconciliationAt).wall
  | field => snapshot field

/-- The times of a snapshot are in UTC. -/
theorem utcoffset_eq (snapshot : snapshotSchema.Built) :
    (snapshot.record .observedAt).utcoffset = some 0 ∧
      (snapshot.record .quoteAt).utcoffset = some 0 ∧
      (snapshot.record .reconciliationAt).utcoffset = some 0 := by
  have read := (Schema.construct_ok.mp snapshot.built).1
  have checked {error : Raised} {time : Datetime}
      (kept : (Check.utc error).read (.time time) = .ok time) : time.utcoffset = some 0 := by
    change (if time.utcoffset == some 0 then Except.ok time else .error error) = .ok time at kept
    split at kept
    · rename_i zero
      exact eq_of_beq zero
    · cases kept
  exact ⟨checked (read .observedAt), checked (read .quoteAt), checked (read .reconciliationAt)⟩

theorem construct_inUtc (snapshot : snapshotSchema.Built) :
    snapshotSchema.construct (snapshotSchema.write (inUtc snapshot.record)) =
      .ok (inUtc snapshot.record) := by
  have read := (Schema.construct_ok.mp snapshot.built).1
  refine Schema.construct_ok.mpr ⟨fun field => ?_, rfl⟩
  cases field <;> first | rfl | exact read _

theorem payload_inUtc (snapshot : snapshotSchema.Built) :
    world.payload snapshotSchema (inUtc snapshot.record) =
      world.payload snapshotSchema snapshot.record := by
  obtain ⟨observed, quoted, reconciled⟩ := utcoffset_eq snapshot
  refine Payload.ext (funext fun field => ?_) rfl
  have time {wall : Wall} {offset : Option ℤ} (zero : offset = some 0) :
      some (Atom.text (world.isoTime wall (some 0))) = some (.text (world.isoTime wall offset)) := by
    rw [zero]
  cases field with
  | observedAt => exact time observed
  | quoteAt => exact time quoted
  | reconciliationAt => exact time reconciled
  | _ => rfl

theorem readSnapshot_payload (snapshot : snapshotSchema.Built) :
    readSnapshot world (world.payload snapshotSchema snapshot.record) =
      .ok (inUtc snapshot.record) := by
  have date (name : String) (day : Day) :
      readDate world name (some (.text (world.isoDate day))) = .ok (.date day) := by
    simp only [readDate, readEntry, world.strptime_isoDate]
  have moment (name : String) (wall : Wall) :
      readMoment world name (some (.text (world.isoTime wall (some 0)))) =
        .ok (.time (.utc wall)) := by
    simp only [readMoment, readEntry, world.fromisoformat_isoTime]
  rw [← payload_inUtc]
  refine bind_ok.mpr ⟨_, date _ (snapshot.record .asOf), ?_⟩
  refine bind_ok.mpr ⟨_, date _ (snapshot.record .quoteDate), ?_⟩
  refine bind_ok.mpr ⟨_, moment _ (snapshot.record .observedAt).wall, ?_⟩
  refine bind_ok.mpr ⟨_, moment _ (snapshot.record .quoteAt).wall, ?_⟩
  refine bind_ok.mpr ⟨_, moment _ (snapshot.record .reconciliationAt).wall, ?_⟩
  refine call_write (construct_inUtc snapshot) rfl fun field => ?_
  cases field with
  | medianDollarVolume =>
    change some (world.json ((Check.optionalNumber _ _).write (snapshot.record .medianDollarVolume)))
      = some ((Check.optionalNumber _ _).write (snapshot.record .medianDollarVolume))
    cases snapshot.record .medianDollarVolume <;> rfl
  | _ => rfl

/-- The clock of a snapshot is in UTC when its decision expires. -/
def ExpiresInUtc (policy : RiskPolicy) (snapshot : PreTradeSnapshot) : Prop :=
  ∀ expires, (snapshot .observedAt).plus (policy .decisionTtlSeconds) = .ok expires →
    expires.utcoffset = some 0

theorem plus_ok {time later : Datetime} {seconds : ℤ} (added : time.plus seconds = .ok later) :
    (later.wall : ℕ) = (time.wall + seconds * 1000000).toNat ∧ later.offset = time.offset := by
  unfold Datetime.plus at added
  split at added
  · cases added
    exact ⟨rfl, rfl⟩
  · cases added

theorem plus_utc {time later : Datetime} {seconds : ℤ} (added : time.plus seconds = .ok later) :
    (Datetime.utc time.wall).plus seconds = .ok (.utc later.wall) := by
  unfold Datetime.plus at added ⊢
  split at added
  · rename_i within
    cases added
    exact dif_pos within
  · cases added

theorem evaluated_inUtc (snapshot : snapshotSchema.Built) {decision : Decision}
    (inTime : ExpiresInUtc policy snapshot.record)
    (evaluated : evaluate world policy identity request snapshot.record = .ok decision) :
    evaluate world policy identity request (inUtc snapshot.record) = .ok decision := by
  obtain ⟨gates, expires, hashes, text, found⟩ := evaluate_ok.mp evaluated
  have body : decisionBody world policy identity request (inUtc snapshot.record) gates
      (.utc expires.wall) hashes =
        decisionBody world policy identity request snapshot.record gates expires hashes := by
    unfold decisionBody
    rw [payload_inUtc]
    congr 1
    · change Atom.text (world.isoTime _ (some 0)) = .text (world.isoTime _ _)
      rw [(utcoffset_eq snapshot).1]
      rfl
    · change Atom.text (world.isoTime _ (some 0)) = .text (world.isoTime _ _)
      rw [inTime expires found.expired]
      rfl
  refine evaluate_ok.mpr ⟨gates, .utc expires.wall, hashes, text, found.gated, found.named,
    plus_utc found.expired, ?_, ?_, ?_⟩
  · unfold inputHashes
    rw [payload_inUtc]
    exact found.inputs
  · rw [body]
    exact found.hashed
  · rw [body]
    exact found.decided

section Passed

variable {decision : Decision} {gates : List Gate} {expires : Datetime} {hashes : Hashes}
  {sha : String}

variable (found : Evaluated world policy identity request snapshot decision gates expires hashes sha)

@[simp] theorem atom_beq_text (text : String) : (Atom.text text == .text text) = true :=
  Atom.same_text text

include found in
theorem Evaluated.shaped : validateDecisionShape (.decision decision) = .ok decision := by
  rw [found.decided]
  apply if_pos
  have version : (Atom.int RISK_SCHEMA_VERSION == .int RISK_SCHEMA_VERSION) = true :=
    Atom.same_int _
  unfold decisionBody
  cases (failedGates gates).isEmpty <;> simp [version, Atom.among]

theorem sha256_read {label text : String} {document : Document}
    (hashed : world.canonicalSha256 document = .ok text) :
    discard ((sha256 label).read (.text text)) = .ok () :=
  map_ok.mpr ⟨text, if_pos (world.canonicalSha256_form hashed), rfl⟩

theorem readTime_isoTime (wall : Wall) :
    world.readTime (.text (world.isoTime wall (some 0))) = .ok (.utc wall) := by
  simp only [World.readTime, world.fromisoformat_isoTime]

/-- A decision lasts at least a second. -/
theorem ttl_pos (policy : policySchema.Built) :
    (1 : ℤ) ≤ policy.record .decisionTtlSeconds := by
  have kept : (seconds "decision ttl seconds").read (.int (policy.record .decisionTtlSeconds)) =
      .ok (policy.record .decisionTtlSeconds) :=
    (Schema.construct_ok.mp policy.built).1 .decisionTtlSeconds
  by_contra short
  have refused : (seconds "decision ttl seconds").read
      (.int (policy.record .decisionTtlSeconds)) =
        .error (.contract ("decision ttl seconds" ++ " must be from 1 through 300")) := by
    apply if_neg
    simp [short]
  rw [refused] at kept
  cases kept

theorem Evaluated.dated {policy : policySchema.Built} {snapshot : snapshotSchema.Built}
    (found : Evaluated world policy.record identity request snapshot.record decision gates
      expires hashes sha) (inTime : ExpiresInUtc policy.record snapshot.record) :
    validateDecisionHashesAndInterval world decision = .ok () := by
  have observed : decision.evaluatedAt =
      .text (world.isoTime (snapshot.record .observedAt).wall (some 0)) := by
    rw [found.decided, ← (utcoffset_eq snapshot).1]
    rfl
  have expiry : decision.expiresAt = .text (world.isoTime expires.wall (some 0)) := by
    rw [found.decided, ← inTime expires found.expired]
    rfl
  have lasting : (1 : ℤ) ≤ policy.record .decisionTtlSeconds := ttl_pos policy
  have later : (snapshot.record .observedAt).wall < expires.wall := by
    have added := (plus_ok found.expired).1
    rw [Fin.lt_def]
    omega
  unfold validateDecisionHashesAndInterval
  rw [observed, expiry, found.decided]
  obtain ⟨policyHash, identityHash, requestHash, snapshotHash⟩ := inputHashes_ok found.inputs
  refine bind_ok.mpr ⟨(), sha256_read policyHash, ?_⟩
  refine bind_ok.mpr ⟨(), sha256_read identityHash, ?_⟩
  refine bind_ok.mpr ⟨(), sha256_read requestHash, ?_⟩
  refine bind_ok.mpr ⟨(), sha256_read snapshotHash, ?_⟩
  refine bind_ok.mpr ⟨(), sha256_read found.hashed, ?_⟩
  refine bind_ok.mpr ⟨_, readTime_isoTime _, ?_⟩
  refine bind_ok.mpr ⟨_, readTime_isoTime _, ?_⟩
  apply if_pos
  simp only [Datetime.utcoffset, Datetime.utc, beq_self_eq_true, Bool.true_and]
  exact decide_eq_true later

theorem validatePayload_ok {Field : Type} {name text : String} {payload : Payload Field}
    {document : Payload Field → Document}
    (hashed : world.canonicalSha256 (document payload) = .ok text) :
    validatePayload world name document (.text text) (some payload) = .ok () := by
  refine bind_ok.mpr ⟨text, hashed, ?_⟩
  exact if_pos (Atom.same_text text)

include found in
theorem Evaluated.bound : validateDecisionPayloads world decision = .ok () := by
  rw [found.decided]
  obtain ⟨policyHash, identityHash, requestHash, snapshotHash⟩ := inputHashes_ok found.inputs
  refine bind_ok.mpr ⟨(), validatePayload_ok policyHash, ?_⟩
  refine bind_ok.mpr ⟨(), validatePayload_ok identityHash, ?_⟩
  exact bind_ok.mpr ⟨(), validatePayload_ok requestHash, validatePayload_ok snapshotHash⟩

include found in
theorem Evaluated.sealed : validateDecisionHash world decision = .ok () := by
  rw [found.decided]
  refine bind_ok.mpr ⟨sha, found.hashed, ?_⟩
  exact if_pos (Atom.same_text sha)

/-- A value is missing or finite as a double. -/
def isFiniteNumber : Atom → Bool
  | .none => true
  | .int value => (Double.ofInt value).isSome
  | .float value => value.isFinite
  | _ => false

/-- Everything that is computed for a decision is finite. -/
def FiniteComputed (request : SubmitOrderRequest) (snapshot : PreTradeSnapshot) : Prop :=
  ∀ field, isFiniteNumber (computed request snapshot field) = true

theorem validateComputedValue_iff (field : ComputedField) :
    validateComputedValue field (computed request snapshot field) = .ok () ↔
      isFiniteNumber (computed request snapshot field) = true := by
  cases field with
  | participation =>
    cases shared : participation request snapshot <;>
      simp [computed, shared, validateComputedValue, isFiniteNumber]
  | _ => simp [computed, validateComputedValue, isFiniteNumber, Option.isSome_iff_ne_none]

include found in
theorem Evaluated.computed_iff :
    validateDecisionComputed decision = .ok () ↔ FiniteComputed request snapshot := by
  rw [found.decided]
  unfold validateDecisionComputed
  change (if (Payload.exact (computed request snapshot)).isExact = true then _ else _) = _ ↔ _
  rw [if_pos (Payload.isExact_exact _)]
  refine forM_ok.trans ⟨fun checked field => ?_, fun finite field _ => ?_⟩
  · exact (validateComputedValue_iff field).mp (checked field field.mem_all)
  · exact (validateComputedValue_iff field).mpr (finite field)

theorem map_text_beq (texts : List String) :
    (texts.map Atom.text == texts.map Atom.text) = true := by
  induction texts with
  | nil => rfl
  | cons text rest ih => exact Bool.and_eq_true_iff.mpr ⟨Atom.same_text text, ih⟩

theorem gateNames_payload (gates : List Gate) :
    gateNames (gates.map fun gate => some gate.payload) =
      (gates.map Gate.name).map Atom.text := by
  induction gates with
  | nil => rfl
  | cons gate rest ih => exact congrArg (Atom.text gate.name :: ·) ih

theorem failedNames_payload (gates : List Gate) :
    failedNames (gates.map fun gate => some gate.payload) =
      (failedGates gates).map Atom.text := by
  induction gates with
  | nil => rfl
  | cons gate rest ih =>
    have status : (gate.payload.entry .status == .text "fail") = (gate.status == "fail") := rfl
    unfold failedNames failedGates at ih ⊢
    rw [List.map_cons, List.filterMap_cons, List.filter_cons]
    simp only [status]
    cases gate.status == "fail" with
    | false => exact ih
    | true => exact congrArg (Atom.text gate.name :: ·) ih

include found in
theorem Evaluated.validGates : ∀ gate ∈ gates, validGate (some gate.payload) = true := by
  intro gate listed
  obtain ⟨row, -, made⟩ := mapM_source found.gated gate listed
  obtain ⟨nonempty, moderate⟩ := makeGate_ok made
  have status : (Atom.text gate.status).among ["pass", "fail"] = true := by
    unfold Gate.status
    cases gate.passed <;> rfl
  change (gate.payload.isExact && (Atom.text gate.status).among ["pass", "fail"] &&
    (!gate.detail.isEmpty && decide (gate.detail.length ≤ 512))) = true
  rw [status, nonempty, decide_eq_true moderate]
  exact congrArg (· && true && true) (Payload.isExact_exact _)

include found in
theorem Evaluated.consistent : validateDecisionOutcome decision = .ok () := by
  have length : gates.length = GATE_NAMES.length := by
    rw [← found.named, List.length_map]
  rw [found.decided]
  unfold validateDecisionOutcome decisionBody
  have all : (gates.map fun gate => some gate.payload).all validGate = true := by
    rw [List.all_map, List.all_eq_true]
    exact found.validGates
  have names : (GATE_NAMES.map Atom.text ==
      gateNames (gates.map fun gate => some gate.payload)) = true := by
    rw [gateNames_payload, found.named]
    exact map_text_beq GATE_NAMES
  have empty : (failedNames (gates.map fun gate => some gate.payload)).isEmpty =
      (failedGates gates).isEmpty := by
    rw [failedNames_payload, List.isEmpty_map]
  refine (if_neg ?_).trans (if_pos ?_)
  · simp only [List.length_map, length, names, all]
    decide
  · rw [empty, failedNames_payload]
    exact Bool.and_eq_true_iff.mpr ⟨map_text_beq _, Atom.same_text _⟩

theorem Evaluated.read {policy : policySchema.Built} {identity : identitySchema.Built}
    {request : requestSchema.Built} {snapshot : snapshotSchema.Built}
    (found : Evaluated world policy.record identity.record request.record snapshot.record decision
      gates expires hashes sha) :
    decisionInputs world decision =
      .ok ⟨policy.record, identity.record, request.record, inUtc snapshot.record⟩ := by
  have inputs : decisionInputs world decision = asContract (.ok
      ⟨policy.record, identity.record, request.record, inUtc snapshot.record⟩) := by
    refine congrArg asContract ?_
    rw [found.decided]
    refine bind_ok.mpr ⟨_, readPolicy_payload policy, ?_⟩
    refine bind_ok.mpr ⟨_, call_identity identity, ?_⟩
    refine bind_ok.mpr ⟨_, readRequest_payload request, ?_⟩
    exact bind_ok.mpr ⟨_, readSnapshot_payload snapshot, rfl⟩
  exact inputs

theorem same_of_finite {atom : Atom} (finite : isFiniteNumber atom = true) :
    atom.same atom = true := by
  cases atom with
  | none => rfl
  | int value => exact Atom.same_int value
  | float value => exact Atom.same_float finite
  | _ => cases finite

theorem json_same {atom : Atom} (same : atom.same atom = true) :
    (world.json atom).same (world.json atom) = true := by
  cases atom with
  | date | time => exact Atom.same_text _
  | texts => exact Atom.same_texts _ _
  | _ => exact same

theorem payload_beq {Field : Type} [Fintype Field] {Value : Field → Type} {schema : Schema Value}
    {record : ∀ field, Value field}
    (built : schema.construct (schema.write record) = .ok record) :
    (world.payload schema record == world.payload schema record) = true :=
  Payload.exact_beq_self fun field => json_same (Schema.write_same built field)

theorem gates_beq (gates : List Gate) :
    ((gates.map fun gate => some gate.payload) == gates.map fun gate => some gate.payload) =
      true := by
  induction gates with
  | nil => rfl
  | cons gate rest ih =>
    have same : (gate.payload == gate.payload) = true :=
      Payload.exact_beq_self fun field => Atom.same_text _
    exact Bool.and_eq_true_iff.mpr ⟨same, ih⟩

theorem Evaluated.beq_self {policy : policySchema.Built} {identity : identitySchema.Built}
    {request : requestSchema.Built} {snapshot : snapshotSchema.Built}
    (found : Evaluated world policy.record identity.record request.record snapshot.record decision
      gates expires hashes sha) (finite : FiniteComputed request.record snapshot.record) :
    (decision == decision) = true := by
  rw [found.decided]
  have fields : ((Decision.mk (decisionBody world policy.record identity.record request.record
      snapshot.record gates expires hashes) (.text sha)).toBody == decisionBody world policy.record
        identity.record request.record snapshot.record gates expires hashes) = true := by
    simp only [BEq.beq, instBEqBody.beq, Bool.and_eq_true]
    exact ⟨Atom.same_int _, Atom.same_text _, Atom.same_text _, Atom.same_text _,
      Atom.same_text _, Atom.same_text _, Atom.same_text _, Atom.same_text _, Atom.same_text _,
      payload_beq policy.built, payload_beq identity.built, payload_beq request.built,
      payload_beq snapshot.built, Payload.exact_beq_self fun field => same_of_finite (finite field),
      gates_beq gates, Atom.same_texts _ _⟩
  exact Bool.and_eq_true_iff.mpr ⟨fields, Atom.same_text sha⟩

end Passed

variable {retained : Decision}

theorem validateDecisionShape_ok {stored : Stored}
    (shaped : validateDecisionShape stored = .ok retained) : stored = .decision retained := by
  cases stored with
  | decision value =>
    change (if _ then Except.ok value else _) = _ at shaped
    split at shaped
    · rw [Except.ok.inj shaped]
    · cases shaped
  | _ => cases shaped

/-- A decision is accepted when it passes every check and its inputs are given it again. -/
theorem verify_ok {stored : Stored} :
    verify world stored = .ok retained ↔
      validateDecisionShape stored = .ok retained ∧
        validateDecisionHashesAndInterval world retained = .ok () ∧
        validateDecisionPayloads world retained = .ok () ∧
        validateDecisionComputed retained = .ok () ∧
        validateDecisionOutcome retained = .ok () ∧
        validateDecisionHash world retained = .ok () ∧
        ∃ inputs again, decisionInputs world retained = .ok inputs ∧
          evaluate world inputs.policy inputs.identity inputs.request inputs.snapshot =
            .ok again ∧ (again == retained) = true := by
  constructor
  · intro accepted
    obtain ⟨decision, shaped, accepted⟩ := bind_ok.mp accepted
    obtain ⟨done, dated, accepted⟩ := bind_ok.mp accepted
    obtain ⟨done, bound, accepted⟩ := bind_ok.mp accepted
    obtain ⟨done, finite, accepted⟩ := bind_ok.mp accepted
    obtain ⟨done, consistent, accepted⟩ := bind_ok.mp accepted
    obtain ⟨done, sealed, accepted⟩ := bind_ok.mp accepted
    obtain ⟨inputs, read, accepted⟩ := bind_ok.mp accepted
    obtain ⟨again, evaluated, accepted⟩ := bind_ok.mp accepted
    split at accepted
    · rename_i same
      cases accepted
      exact ⟨shaped, dated, bound, finite, consistent, sealed, inputs, again, read, evaluated, same⟩
    · cases accepted
  · rintro ⟨shaped, dated, bound, finite, consistent, sealed, inputs, again, read, evaluated, same⟩
    refine bind_ok.mpr ⟨retained, shaped, bind_ok.mpr ⟨(), dated, bind_ok.mpr ⟨(), bound, ?_⟩⟩⟩
    refine bind_ok.mpr ⟨(), finite, bind_ok.mpr ⟨(), consistent, bind_ok.mpr ⟨(), sealed, ?_⟩⟩⟩
    refine bind_ok.mpr ⟨inputs, read, bind_ok.mpr ⟨again, evaluated, ?_⟩⟩
    exact if_pos same

theorem accepted_iff (policy : policySchema.Built) (identity : identitySchema.Built)
    (request : requestSchema.Built) (snapshot : snapshotSchema.Built) {decision : Decision}
    (evaluated : evaluate world policy.record identity.record request.record snapshot.record =
      .ok decision)
    (inTime : ExpiresInUtc policy.record snapshot.record) :
    verify world (.decision decision) = .ok decision ↔
      FiniteComputed request.record snapshot.record := by
  obtain ⟨gates, expires, hashes, sha, found⟩ := evaluate_ok.mp evaluated
  refine verify_ok.trans ⟨fun passed => found.computed_iff.mp passed.2.2.2.1, fun finite => ?_⟩
  exact ⟨found.shaped, found.dated inTime, found.bound, found.computed_iff.mpr finite,
    found.consistent, found.sealed, _, decision, found.read,
    evaluated_inUtc snapshot inTime evaluated, found.beq_self finite⟩

theorem gates_of_beq {gates : List Gate} {stored : List (Option (Payload GateField))}
    (same : ((gates.map fun gate => some gate.payload) == stored) = true) :
    (gates.map fun gate => some gate.payload) = stored := by
  induction gates generalizing stored with
  | nil =>
    cases stored with
    | nil => rfl
    | cons => cases same
  | cons gate rest ih =>
    cases stored with
    | nil => cases same
    | cons head others =>
      obtain ⟨first, later⟩ := Bool.and_eq_true_iff.mp same
      cases head with
      | none => cases first
      | some payload =>
        have equal : payload = gate.payload := Payload.eq_of_texts_beq first
        rw [List.map_cons, equal, ih later]

theorem Evaluated.eq_of_beq {decision : Decision} {gates : List Gate}
    {expires : Datetime} {hashes : Hashes} {sha : String}
    (found : Evaluated world policy identity request snapshot decision gates expires hashes sha)
    (same : (decision == retained) = true) :
    decision.status = retained.status ∧ decision.gates = retained.gates ∧
      decision.failedGates = retained.failedGates ∧
      decision.decisionSha256 = retained.decisionSha256 := by
  rw [found.decided] at same ⊢
  obtain ⟨body, hash⟩ := Bool.and_eq_true_iff.mp same
  change instBEqBody.beq _ _ = true at body
  simp only [instBEqBody.beq, Bool.and_eq_true] at body
  obtain ⟨-, status, -, -, -, -, -, -, -, -, -, -, -, -, listed, failed⟩ := body
  refine ⟨(Atom.eq_text_of_same status).symm, ?_, (Atom.eq_texts_of_same failed).symm,
    (Atom.eq_text_of_same hash).symm⟩
  cases held : retained.gates with
  | none =>
    rw [held] at listed
    cases listed
  | some stored =>
    rw [held] at listed
    exact congrArg some (gates_of_beq listed)

/-- A decision on valid inputs, whose clock is in UTC when the decision expires, is accepted
exactly when everything that was computed is finite. An accepted decision has the verdict,
the gates and the hash that its inputs are given again. -/
theorem verify_evaluate (world : World) :
    (∀ (policy : policySchema.Built) (identity : identitySchema.Built)
      (request : requestSchema.Built) (snapshot : snapshotSchema.Built) (decision : Decision),
      evaluate world policy.record identity.record request.record snapshot.record =
          .ok decision →
        ExpiresInUtc policy.record snapshot.record →
        (verify world (.decision decision) = .ok decision ↔
          FiniteComputed request.record snapshot.record)) ∧
    ∀ (stored : Stored) (retained : Decision), verify world stored = .ok retained →
      stored = .decision retained ∧
        ∃ inputs again, decisionInputs world retained = .ok inputs ∧
          evaluate world inputs.policy inputs.identity inputs.request inputs.snapshot =
            .ok again ∧
          again.status = retained.status ∧ again.gates = retained.gates ∧
          again.failedGates = retained.failedGates ∧
          again.decisionSha256 = retained.decisionSha256 := by
  constructor
  · intro policy identity request snapshot decision evaluated inTime
    exact accepted_iff policy identity request snapshot evaluated inTime
  · intro stored retained accepted
    obtain ⟨shaped, -, -, -, -, -, inputs, again, read, evaluated, same⟩ := verify_ok.mp accepted
    obtain ⟨gates, expires, hashes, sha, found⟩ := evaluate_ok.mp evaluated
    exact ⟨validateDecisionShape_ok shaped, inputs, again, read, evaluated, found.eq_of_beq same⟩

/-- The gates that fail are those of the rows that do not pass. -/
theorem failedGates_rows {rows : List (String × Bool × String)} {gates : List Gate}
    (made : rows.mapM (fun row => makeGate row.1 row.2.1 row.2.2) = .ok gates) :
    failedGates gates = (rows.filter fun row => !row.2.1).map Prod.fst := by
  induction rows generalizing gates with
  | nil =>
    cases made
    rfl
  | cons row rest ih =>
    rw [List.mapM_cons] at made
    obtain ⟨gate, first, made⟩ := bind_ok.mp made
    obtain ⟨others, later, made⟩ := bind_ok.mp made
    cases made
    unfold makeGate at first
    split at first
    · cases first
    · cases first
      have alike := ih later
      unfold failedGates at alike ⊢
      rw [List.filter_cons, List.filter_cons]
      cases row.2.1 with
      | false => exact congrArg (row.1 :: ·) alike
      | true => exact alike

/-- Whoever is shown a decision that is accepted and passes may rely on every gate: on the inputs
that the decision carries, all of them pass, and otherwise it names those that do not. -/
theorem verified_gates {stored : Stored} {retained : Decision}
    (accepted : verify world stored = .ok retained) :
    ∃ inputs rows, decisionInputs world retained = .ok inputs ∧
      gateRows world inputs.policy inputs.identity inputs.request inputs.snapshot = rows ∧
      retained.failedGates = .texts false ((rows.filter fun row => !row.2.1).map Prod.fst) ∧
      (retained.status = .text "pass" ↔ ∀ row ∈ rows, row.2.1 = true) := by
  obtain ⟨-, -, -, -, -, -, inputs, again, read, evaluated, same⟩ := verify_ok.mp accepted
  obtain ⟨gates, expires, hashes, sha, found⟩ := evaluate_ok.mp evaluated
  obtain ⟨status, -, failed, -⟩ := found.eq_of_beq same
  have rows := failedGates_rows found.gated
  refine ⟨inputs, _, read, rfl, ?_, ?_⟩
  · rw [← failed, found.decided, ← rows]
    rfl
  · have verdict : retained.status =
        .text (if (failedGates gates).isEmpty then "pass" else "fail") := by
      rw [← status, found.decided]
      rfl
    rw [verdict, rows, List.isEmpty_map]
    cases all : (List.filter _ _ : List (String × Bool × String)).isEmpty with
    | true => simpa [List.filter_eq_nil_iff] using all
    | false => simpa [List.filter_eq_nil_iff] using all

theorem length_le_utf8ByteSize (text : String) : text.length ≤ text.utf8ByteSize := by
  induction text using String.push_induction with
  | empty => exact Nat.zero_le _
  | push text character ih =>
    rw [String.length_push, String.utf8ByteSize_push]
    exact Nat.add_le_add ih character.utf8Size_pos

def isShort (row : String × Bool × String) : Bool :=
  GATE_NAMES.contains row.1 && !row.2.2.isEmpty && decide (row.2.2.utf8ByteSize ≤ 512)

theorem makeGate_of_isShort {row : String × Bool × String} (short : isShort row = true) :
    makeGate row.1 row.2.1 row.2.2 = .ok ⟨row.1, row.2.1, row.2.2⟩ := by
  unfold isShort at short
  rw [Bool.and_eq_true, Bool.and_eq_true] at short
  obtain ⟨⟨known, worded⟩, size⟩ := short
  have within : ¬ 512 < row.2.2.length :=
    not_lt.mpr ((length_le_utf8ByteSize _).trans (of_decide_eq_true size))
  apply if_neg
  rw [known, decide_eq_false within, Bool.or_false]
  simpa using worded

theorem makeGates_ok {rows : List (String × Bool × String)} (short : rows.all isShort = true) :
    ∃ gates, rows.mapM (fun row => makeGate row.1 row.2.1 row.2.2) = .ok gates ∧
      gates.map Gate.name = rows.map Prod.fst := by
  induction rows with
  | nil => exact ⟨[], rfl, rfl⟩
  | cons row rest ih =>
    rw [List.all_cons, Bool.and_eq_true] at short
    obtain ⟨gates, made, named⟩ := ih short.2
    refine ⟨⟨row.1, row.2.1, row.2.2⟩ :: gates, ?_, congrArg (row.1 :: ·) named⟩
    rw [List.mapM_cons, makeGate_of_isShort short.1, made]
    rfl

def sampleSha : String := "aaaaaaaaaaaaaaaaaaaaaaaaaaaaaaaaaaaaaaaaaaaaaaaaaaaaaaaaaaaaaaaa"

theorem sampleDay_bound : 739806 < dayCount := by decide

theorem sampleWall_bound : 739806 * dayLength + 52200000000 < dayCount * dayLength := by decide

theorem laterWall_bound : 739806 * dayLength + 52260000000 < dayCount * dayLength := by decide

def samplePolicyArguments : PolicyField → Atom
  | .policyId => .text "core"
  | .accountId => .text "paper-1"
  | .strategyId => .text "momentum"
  | .executionProfileId => .text "moc"
  | .releaseSha256 | .strategyConfigSha256 | .executionProfileSha256 => .text sampleSha
  | .allowedSymbols => .texts true ["SPY"]
  | .capitalCeiling | .maxGrossExposure => .int 10000
  | .maxOrderNotional => .int 1000
  | .maxDailyTurnover => .int 5000
  | .maxPositionFraction => .float (.ofRat false (1 / 2))
  | .maxDailyOrders => .int 10
  | .maxQuoteAgeSeconds | .maxReconciliationAgeSeconds | .decisionTtlSeconds => .int 60
  | .maxParticipation | .maxDailyLossFraction | .maxDrawdownFraction
  | .maxReferenceDeviationFraction => .float (.ofRat false (1 / 4))

def sampleIdentityArguments : IdentityField → Atom
  | .policyId => .text "core"
  | .strategyId => .text "momentum"
  | .executionProfileId => .text "moc"
  | .releaseSha256 | .strategyConfigSha256 | .executionProfileSha256 => .text sampleSha

def sampleDay : Day := ⟨739806, sampleDay_bound⟩

def sampleWall : Wall := ⟨739806 * dayLength + 52200000000, sampleWall_bound⟩

def laterWall : Wall := ⟨739806 * dayLength + 52260000000, laterWall_bound⟩

def sampleRequestArguments (huge : Bool) : RequestField → Atom
  | .idempotencyKey => .text "order-1"
  | .accountId => .text "paper-1"
  | .symbol => .text "SPY"
  | .side => .text "buy"
  | .quantity => if huge then .float (.ofRat false (10 ^ 200)) else .int 2
  | .signalDate => .date sampleDay
  | .orderType => .text "market"
  | .timeInForce => .text "day"
  | .extendedHours => .bool false

def sampleSnapshotArguments (huge : Bool) : SnapshotField → Atom
  | .asOf | .quoteDate => .date sampleDay
  | .observedAt | .quoteAt | .reconciliationAt => .time (.utc sampleWall)
  | .accountSnapshotSha256 | .reconciliationSha256 | .marketStateSha256
  | .performanceStateSha256 | .operationalControlSha256 => .text sampleSha
  | .quotePrice | .referencePrice =>
    if huge then .float (.ofRat false (10 ^ 200)) else .int 100
  | .medianDollarVolume => .int 1000000
  | .accountActive | .instrumentActive | .instrumentLiquid | .marketSessionOpen
  | .clockSynchronized | .storageHealthy | .brokerHealthy | .reconciled
  | .corporateActionClear => .bool true
  | .marginEnabled | .instrumentQuarantined | .operationalHalt => .bool false
  | .instrumentType => .text "etf"
  | .currency => .text "USD"
  | .cash | .buyingPower | .equity => .int 10000
  | _ => .int 0

theorem samples_ok (huge : Bool) :
    (policySchema.construct samplePolicyArguments).isOk = true ∧
      (identitySchema.construct sampleIdentityArguments).isOk = true ∧
      (requestSchema.construct (sampleRequestArguments huge)).isOk = true ∧
      (snapshotSchema.construct (sampleSnapshotArguments huge)).isOk = true := by
  cases huge <;> decide +kernel

theorem samplePolicy_ok : (policySchema.construct samplePolicyArguments).isOk = true :=
  (samples_ok true).1

theorem sampleIdentity_ok : (identitySchema.construct sampleIdentityArguments).isOk = true :=
  (samples_ok true).2.1

theorem sampleRequest_ok (huge : Bool) :
    (requestSchema.construct (sampleRequestArguments huge)).isOk = true :=
  (samples_ok huge).2.2.1

theorem sampleSnapshot_ok (huge : Bool) :
    (snapshotSchema.construct (sampleSnapshotArguments huge)).isOk = true :=
  (samples_ok huge).2.2.2

def samplePolicy : policySchema.Built := policySchema.build _ samplePolicy_ok

def sampleIdentity : identitySchema.Built := identitySchema.build _ sampleIdentity_ok

def sampleRequest (huge : Bool) : requestSchema.Built :=
  requestSchema.build _ (sampleRequest_ok huge)

def sampleSnapshot (huge : Bool) : snapshotSchema.Built :=
  snapshotSchema.build _ (sampleSnapshot_ok huge)

def sampleHash (huge : Bool) : Document → String
  | .policy _ => "5e1ff4502085d8e4bd42269f019dc993f84a464fdae8dcd93b5ac0c4c5bebf42"
  | .identity _ => "9a8daa959003c8a6a4142a39e52c440d26a068776f0494383396957bf7bf4b63"
  | .request _ =>
    if huge then "37a149944665bc9ca4442ae3228c01e54f3639f1403a52ecd73e95711ae19c6b"
    else "5905a6b2959e53e434f65ebd5c189372e12e67c728d0423daa428a3e39904551"
  | .snapshot _ =>
    if huge then "74d47b2f6c8ad739555258c4c2b94dd46a712e550e335a7bd24a1ba107d97b2e"
    else "83bd326069d5110edf8614ff790a84ffb5e2b26121fc6d75ede0ea3b573a8b39"
  | .body _ =>
    if huge then "add4ebb97f0bc8e9a71432642bbdf96c753c7a818895b840842c8b58fbfdd521"
    else "007761b26012476328224eb3b528b8faaaccecf2f97b52083cbe6ecf167fcc1e"

theorem sampleHash_form (huge : Bool) (document : Document) :
    PaperAccounts.isSha256 (sampleHash huge document) = true := by
  cases huge <;> cases document <;>
    simp only [sampleHash, Bool.false_eq_true, ↓reduceIte] <;> decide +kernel

def tally (count : ℕ) : String := String.ofList (List.replicate count 'x')

theorem tally_length (count : ℕ) : (tally count).length = count := by
  simp [tally]

theorem tally_ne {text : String} (dated : '2' ∈ text.toList) (count : ℕ) : tally count ≠ text := by
  intro same
  have listed : '2' ∈ List.replicate count 'x' := by
    rw [← same] at dated
    simpa only [tally, String.toList_ofList] using dated
  exact absurd (List.eq_of_mem_replicate listed) (by decide)

def sampleWorld (huge : Bool) : World where
  canonicalSha256 document := .ok (sampleHash huge document)
  canonicalSha256_form hashed := Except.ok.inj hashed ▸ sampleHash_form huge _
  isoDate day := if day = sampleDay then "2026-07-10" else tally day
  strptime text := if text = "2026-07-10" then some sampleDay
    else if within : text.length < dayCount then some ⟨text.length, within⟩ else none
  strptime_isoDate day := by
    by_cases known : day = sampleDay
    · rw [if_pos known, if_pos rfl, known]
    · rw [if_neg known, if_neg (tally_ne (by decide) _),
        dif_pos (by rw [tally_length]; exact day.isLt)]
      exact congrArg some (Fin.ext (tally_length _))
  isoTime wall _ := if wall = sampleWall then "2026-07-10T14:30:00+00:00"
    else if wall = laterWall then "2026-07-10T14:31:00+00:00" else tally wall
  fromisoformat text := if text = "2026-07-10T14:30:00+00:00" then some (.utc sampleWall)
    else if text = "2026-07-10T14:31:00+00:00" then some (.utc laterWall)
    else if within : text.length < dayCount * dayLength then some (.utc ⟨text.length, within⟩)
    else none
  fromisoformat_isoTime wall := by
    by_cases first : wall = sampleWall
    · rw [if_pos first, if_pos rfl, first]
    · rw [if_neg first]
      by_cases second : wall = laterWall
      · rw [if_pos second, if_neg (by decide), if_pos rfl, second]
      · rw [if_neg second, if_neg (tally_ne (by decide) _), if_neg (tally_ne (by decide) _),
          dif_pos (by rw [tally_length]; exact wall.isLt)]
        exact congrArg (some ∘ Datetime.utc) (Fin.ext (tally_length _))

def sampleDecision (huge : Bool) : Except Raised Decision :=
  evaluate (sampleWorld huge) samplePolicy.record sampleIdentity.record
    (sampleRequest huge).record (sampleSnapshot huge).record

def raised {α : Type} : Except Raised α → Option Raised
  | .ok _ => none
  | .error error => some error

theorem sample_inUtc (huge : Bool) :
    ExpiresInUtc samplePolicy.record (sampleSnapshot huge).record := by
  intro expires added
  have observed : Except.ok (Datetime.utc sampleWall) =
      (.ok ((sampleSnapshot huge).record .observedAt) : Except Raised Datetime) :=
    Schema.build_read (sampleSnapshot_ok huge) .observedAt
  have zone := (plus_ok added).2
  rw [← Except.ok.inj observed] at zone
  unfold Datetime.utcoffset
  rw [zone]
  rfl

/-- Both orders have short gates; the small one is finite, and the huge one is not. -/
theorem sample_outcomes :
    (∀ huge, (gateRows (sampleWorld huge) (policySchema.kept samplePolicyArguments)
        (identitySchema.kept sampleIdentityArguments)
        (requestSchema.kept (sampleRequestArguments huge))
        (snapshotSchema.kept (sampleSnapshotArguments huge))).all isShort = true ∧
      ((snapshotSchema.kept (sampleSnapshotArguments huge) .observedAt).plus
        (policySchema.kept samplePolicyArguments .decisionTtlSeconds)).isOk = true) ∧
      FiniteComputed (sampleRequest false).record (sampleSnapshot false).record ∧
      raised (ComputedField.all.forM fun field => validateComputedValue field
        (computed (sampleRequest true).record (sampleSnapshot true).record field)) =
          some (.contract "risk decision computed values are invalid") := by
  unfold FiniteComputed sampleRequest sampleSnapshot
  rw [Schema.build_record, Schema.build_record, Schema.build_record, Schema.build_record]
  decide +kernel

theorem sampleDecision_ok (huge : Bool) : ∃ decision, sampleDecision huge = .ok decision := by
  obtain ⟨short, inTime⟩ := sample_outcomes.1 huge
  obtain ⟨gates, made, named⟩ := makeGates_ok short
  obtain ⟨expires, later⟩ := exists_ok inTime
  unfold sampleDecision samplePolicy sampleIdentity sampleRequest sampleSnapshot
  rw [Schema.build_record, Schema.build_record, Schema.build_record, Schema.build_record]
  exact ⟨_, evaluate_ok.mpr ⟨gates, expires, _, _, made, named, later, rfl, rfl, rfl⟩⟩

/-- An order for two shares is decided on, accepted and evaluated again. -/
theorem smallOrder_verified :
    ∃ decision, sampleDecision false = .ok decision ∧
      verify (sampleWorld false) (.decision decision) = .ok decision ∧
      ∃ inputs again, decisionInputs (sampleWorld false) decision = .ok inputs ∧
        evaluate (sampleWorld false) inputs.policy inputs.identity inputs.request
          inputs.snapshot = .ok again ∧ again.decisionSha256 = decision.decisionSha256 := by
  obtain ⟨decision, evaluated⟩ := sampleDecision_ok false
  have accepted : verify (sampleWorld false) (.decision decision) = .ok decision :=
    ((verify_evaluate (sampleWorld false)).1 samplePolicy sampleIdentity (sampleRequest false)
      (sampleSnapshot false) decision evaluated (sample_inUtc false)).mpr sample_outcomes.2.1
  obtain ⟨-, inputs, again, read, recomputed, -, -, -, hash⟩ :=
    (verify_evaluate (sampleWorld false)).2 _ _ accepted
  exact ⟨decision, evaluated, accepted, inputs, again, read, recomputed, hash⟩

theorem smallOrder_gates :
    ∃ retained inputs rows, decisionInputs (sampleWorld false) retained = .ok inputs ∧
      gateRows (sampleWorld false) inputs.policy inputs.identity inputs.request
        inputs.snapshot = rows ∧
      retained.failedGates = .texts false ((rows.filter fun row => !row.2.1).map Prod.fst) ∧
      (retained.status = .text "pass" ↔ ∀ row ∈ rows, row.2.1 = true) := by
  obtain ⟨decision, evaluated⟩ := sampleDecision_ok false
  exact ⟨decision, verified_gates ((accepted_iff samplePolicy sampleIdentity (sampleRequest false)
    (sampleSnapshot false) evaluated (sample_inUtc false)).mpr sample_outcomes.2.1)⟩

/-- Ten to the two hundredth shares at as many dollars are worth more than a double can
hold: the order is decided on, and its decision is refused. -/
theorem hugeOrder_refused :
    ∃ decision, sampleDecision true = .ok decision ∧
      raised (verify (sampleWorld true) (.decision decision)) =
        some (.contract "risk decision computed values are invalid") := by
  obtain ⟨decision, evaluated⟩ := sampleDecision_ok true
  obtain ⟨gates, expires, hashes, sha, found⟩ := evaluate_ok.mp evaluated
  refine ⟨decision, evaluated, ?_⟩
  have infinite : raised (validateDecisionComputed decision) =
      some (.contract "risk decision computed values are invalid") := by
    rw [found.decided]
    unfold validateDecisionComputed
    change raised (if (Payload.exact (computed _ _)).isExact = true then _ else _) = _
    rw [if_pos (Payload.isExact_exact _)]
    exact sample_outcomes.2.2
  unfold verify
  simp only [found.shaped, found.dated (sample_inUtc true), found.bound, bind, Except.bind]
  cases failed : validateDecisionComputed decision with
  | error failure =>
    rw [failed] at infinite
    exact infinite
  | ok done =>
    rw [failed] at infinite
    cases infinite

end TradingEngine.PreTrade
