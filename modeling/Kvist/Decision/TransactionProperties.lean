import Kvist.Decision.RecordSizes
import Kvist.Decision.TaskProperties
import Kvist.Guarded
import Kvist.TaskQueue.NormalizeProperties

/-!
# When a plan can be applied to its end

The journals and the receipt of a plan hold the whole plan and more, while only the plan was measured
when it was prepared. If the receipt fits, then no call ever stops at the bound of the storage.
-/

set_option autoImplicit false

namespace Kvist.Decision

open Json Queue Guarded

/-! ## A prepared plan -/

/-- What preparing makes sure of. -/
structure Prepared (plan : Plan) : Prop where
  encoded : ∃ value, plan.toJson = .ok value ∧ serializedBytes value ≤ maxFile
  preview : (utf8 (preview plan)).length ≤ maxFile
  controlled : ∀ name ∈ plan.outputs.keys, name ∈ controlledNames

theorem outputs_keys {around : IntentSources} {context : TaskContext} {input : Capture}
    {draft : Draft} {instant : Timestamp} {changes : Changes}
    (controlled : input.files.keys = controlledNames)
    (accepted : outputs around context input draft instant = .ok changes) :
    ∀ name ∈ changes.outputs.keys, name ∈ controlledNames := by
  simp only [outputs, bind_ok_iff, ensure_eq_ok_iff, exists_const, okOr_ok_iff, pure_eq_ok,
    Except.ok.injEq] at accepted
  obtain ⟨-, ⟨⟩, -, documents, materialized, place, -, edited, -, ⟨disposed, retired⟩, -, parent, -,
    text, -, ⟨⟩, -, rfl⟩ := accepted
  intro name member
  have inserted : name ∈ (documents.insert todosName text).keys := by
    rw [← OrderedMap.get_isSome_iff] at member ⊢
    rw [OrderedMap.get_retain] at member
    exact Option.isSome_of_isSome_filter _ _ member
  rcases OrderedMap.mem_keys_insert.mp inserted with rfl | document
  · decide
  · rcases materialize_keys materialized name document with captured | intent
    · rwa [controlled] at captured
    · have known : ∀ name ∈ intentNames, name ∈ controlledNames := by decide
      exact known name intent

theorem sealedPlan_ok {around : PrepareSources} {input : Capture} {selection : Selection}
    {review : IntentReview} {disposition : Disposition} {changes : Changes} {instant : Timestamp}
    {plan : Plan}
    (accepted : sealedPlan around input selection review disposition changes instant = .ok plan) :
    plan.outputs = changes.outputs ∧ plan.input = input := by
  simp only [sealedPlan, sealPlan, bind_ok_iff, pure_eq_ok, Except.ok.injEq] at accepted
  obtain ⟨⟨id, approval⟩, -, secret, -, value, -, rfl⟩ := accepted
  exact ⟨rfl, rfl⟩

theorem prepare_ok {around : PrepareSources} {input : Capture} {draft : Draft}
    {selection : Selection} {review : IntentReview} {plan : Plan}
    (controlled : input.files.keys = controlledNames)
    (accepted : prepare around input draft selection review = .ok plan) :
    Prepared plan ∧ plan.input = input := by
  simp only [prepare, bind_ok_iff, pure_eq_ok, Except.ok.injEq] at accepted
  obtain ⟨context, -, fresh, -, same, -, ⟨⟩, -, ⟨⟩, -, ⟨⟩, -, ⟨⟩, -, instant, -, changes, changed,
    sealed, sealing, value, encoded, ⟨⟩, small, ⟨⟩, short, -, -, -, -, -, -, -, -, -, -, -, -, -, -,
    rfl⟩ := accepted
  obtain ⟨outputsEq, inputEq⟩ := sealedPlan_ok sealing
  refine ⟨⟨⟨value, encoded, ?_⟩, bounded_ok_iff.mp short, ?_⟩, inputEq⟩
  · rw [← length_encode]
    exact bounded_ok_iff.mp small
  · rw [outputsEq]
    exact outputs_keys controlled changed

/-! ## What fits -/

theorem texts_fit {texts : Texts} {entry : String × String} (member : entry ∈ texts.entries) :
    (bytesOf entry.2).length ≤ serializedBytes (textsJson texts) := by
  have inside : (entry.1, Value.string entry.2) ∈
      texts.entries.map fun entry => (entry.1, Value.string entry.2) :=
    List.mem_map.mpr ⟨entry, member, rfl⟩
  have whole := serializedBytes_member_le inside
  rw [serializedBytes_string] at whole
  rw [bytesOf, length_utf8]
  exact (utf8Bytes_le_quoteBytes entry.2).trans whole

theorem Prepared.files_fit {plan : Plan} (prepared : Prepared plan) {entry : String × String}
    (member : entry ∈ plan.input.files.entries ∨ entry ∈ plan.outputs.entries) :
    (bytesOf entry.2).length ≤ maxFile := by
  obtain ⟨value, encoded, small⟩ := prepared.encoded
  simp only [Plan.toJson, Capture.toJson, bind_ok_iff, pure_eq_ok, Except.ok.injEq] at encoded
  obtain ⟨input, ⟨component, -, rfl⟩, rfl⟩ := encoded
  refine le_trans ?_ small
  rcases member with before | after
  · have captured : ("input", Value.object (captureMembers plan.input component)) ∈
        planMembers plan (.object (captureMembers plan.input component)) :=
      .tail _ (.tail _ (.tail _ (.head _)))
    have files : ("files", textsJson plan.input.files) ∈ captureMembers plan.input component :=
      .tail _ (.tail _ (.tail _ (.tail _ (.head _))))
    exact (texts_fit before).trans ((serializedBytes_member_le files).trans
      (serializedBytes_member_le captured))
  · have outputs : ("outputs", textsJson plan.outputs) ∈
        planMembers plan (.object (captureMembers plan.input component)) :=
      .tail _ (.tail _ (.tail _ (.tail _ (.tail _ (.tail _ (.tail _ (.head _)))))))
    exact (texts_fit after).trans (serializedBytes_member_le outputs)

/-- A journal of this plan. -/
structure OwnJournal (plan : Plan) (journal : Journal) : Prop where
  version : journal.schemaVersion = 1
  same : journal.plan = plan
  progress : ∀ name ∈ journal.completed.keys, name ∈ plan.outputs.keys
  locked : isSha256Text journal.lockDigest = true

def JournalFits (journal : Journal) : Prop :=
  ∀ value, journal.toJson = .ok value → serializedBytes value ≤ maxFile

def ReceiptFits (receipt : Receipt) : Prop :=
  ∀ value, receipt.toJson = .ok value → serializedBytes value ≤ maxFile

def HasRoom (plan : Plan) : Prop :=
  ∀ value, plan.toJson = .ok value → serializedBytes value + receiptOverhead ≤ maxFile

variable {hmac : Hmac} {secret : List UInt8} {plan : Plan}

def HasJournalRoom (plan : Plan) : Prop :=
  ∀ value, plan.toJson = .ok value → serializedBytes value + journalOverhead ≤ maxFile

theorem HasRoom.journal {plan : Plan} (room : HasRoom plan) : HasJournalRoom plan := by
  intro value encoded
  have smaller : journalOverhead ≤ receiptOverhead := by decide
  exact (Nat.add_le_add_left smaller _).trans (room value encoded)

theorem sealJournal_fits {journal next : Journal} (signs : Signs hmac) (prepared : Prepared plan)
    (room : HasJournalRoom plan) (own : OwnJournal plan journal)
    (sealed : sealJournal hmac secret journal = .ok next) :
    OwnJournal plan next ∧ JournalFits next := by
  simp only [sealJournal, bind_ok_iff, pure_eq_ok, Except.ok.injEq] at sealed
  obtain ⟨tagged, -, rfl⟩ := sealed
  refine ⟨⟨own.version, own.same, own.progress, own.locked⟩, ?_⟩
  intro value encoded
  simp only [Journal.toJson, bind_ok_iff, pure_eq_ok, Except.ok.injEq] at encoded
  obtain ⟨inner, written, rfl⟩ := encoded
  rw [own.same] at written
  refine (serializedBytes_journal signs own.version ?_ own.locked tagged secret inner).trans
    (room inner written)
  exact fun name member => prepared.controlled name (own.progress name member)

theorem sealReceipt_size {instant : Instant} {receipt : Receipt} {value : Value}
    (signs : Signs hmac) (sealed : sealReceipt hmac secret (newReceipt plan instant.timestamp) =
      .ok receipt) (encoded : receipt.toJson = .ok value) :
    ∃ inner, plan.toJson = .ok inner ∧
      serializedBytes value = serializedBytes inner + receiptOverhead := by
  simp only [sealReceipt, bind_ok_iff, pure_eq_ok, Except.ok.injEq] at sealed
  obtain ⟨tagged, -, rfl⟩ := sealed
  simp only [Receipt.toJson, bind_ok_iff, pure_eq_ok, Except.ok.injEq] at encoded
  obtain ⟨inner, written, rfl⟩ := encoded
  exact ⟨inner, written, serializedBytes_receipt signs plan instant tagged secret inner⟩

theorem receipt_toJson {receipt : Receipt} {inner : Value}
    (written : receipt.plan.toJson = .ok inner) :
    receipt.toJson = .ok (.object (receiptMembers receipt inner)) := by
  rw [Receipt.toJson, written]
  rfl

theorem sealReceipt_total {receipt : Receipt} {inner : Value}
    (written : receipt.plan.toJson = .ok inner) (hmac : Hmac) (secret : List UInt8) :
    ∃ final value, sealReceipt hmac secret receipt = .ok final ∧ final.toJson = .ok value := by
  let tag := authenticated hmac (.object (receiptMembers receipt inner)) secret
  refine ⟨{ receipt with authenticationTag := tag }, _, ?_, receipt_toJson written⟩
  rw [sealReceipt, receipt_toJson written]
  rfl

/-! ## A call -/

/-- What holds of the workspace between calls. -/
structure Fitting (plan : Plan) (workspace : Workspace) : Prop where
  files : ∀ entry ∈ workspace.files.entries, (bytesOf entry.2).length ≤ maxFile
  pending : ∀ journal, workspace.pending = some journal →
    OwnJournal plan journal ∧ JournalFits journal
  receipt : ∀ receipt, workspace.receipt = some receipt → ReceiptFits receipt

/-- Any reason to stop but the bound of the storage. -/
def NotSize : Stop → Prop
  | .size _ => False
  | .other _ => True

/-- The computation keeps the workspace fitting, and never stops at the bound of the storage. -/
abbrev Safe {α : Type} (plan : Plan) (property : α → Prop) (computation : Transaction α) : Prop :=
  Keeps (Fitting plan) NotSize property computation

theorem safe_checked {α : Type} {result : Except Failure α} {property : α → Prop}
    (holds : ∀ value, result = .ok value → property value) : Safe plan property (checked result) := by
  refine keeps_lift ?_
  cases result with
  | ok value => exact holds value rfl
  | error failure => trivial

theorem safe_check {result : Except Failure Unit} :
    Safe plan (fun _ => True) (checked result) := safe_checked fun _ _ => trivial

theorem safe_sized {result : Except Failure Unit} (fitting : result = .ok ()) :
    Safe plan (fun _ => True) (sized result) := by
  refine keeps_lift ?_
  rw [fitting]
  trivial

theorem fits_ok {path bytes : List UInt8} (small : bytes.length ≤ maxFile) :
    fits path bytes = .ok () := by
  rw [fits, ensure_ok_iff, decide_eq_true_eq]
  exact small

theorem bounded_ok {text path : List UInt8} (small : text.length ≤ maxFile) :
    bounded text path = .ok () := bounded_ok_iff.mpr small

variable {context : TaskContext} {checks : Checks} {moment : Moment} {name : String}

theorem safe_readControlled :
    Safe plan (fun _ => True) (readControlled checks moment name) := by
  refine safe_check.andThen (keeps_get.bind fun workspace fitting => ?_)
  refine (safe_checked fun text found => okOr_ok_iff.mp found).bind fun text found => ?_
  refine (safe_sized (fits_ok ?_)).andThen (keeps_pure trivial)
  exact fitting.files _ (OrderedMap.mem_of_lookup found)

theorem safe_readJournal : Safe plan (fun found => ∀ journal, found = some journal →
    OwnJournal plan journal ∧ JournalFits journal)
    (readJournal hmac secret context checks moment) := by
  refine safe_check.andThen (keeps_get.bind fun workspace fitting => ?_)
  cases found : workspace.pending with
  | none => exact keeps_pure fun journal impossible => nomatch impossible
  | some journal =>
      have own := fitting.pending journal found
      refine (safe_checked fun value encoded => encoded).bind fun value encoded => ?_
      refine (safe_sized (fits_ok ?_)).andThen (safe_check.andThen (keeps_pure ?_))
      · rw [length_encode]
        exact own.2 value encoded
      · rintro other ⟨⟩
        exact own

theorem safe_requireCurrent {journal : Journal} :
    Safe plan (fun _ => True) (requireCurrent hmac secret context journal) := by
  refine keeps_get.bind fun workspace fitting => ?_
  refine (safe_checked fun current found => okOr_ok_iff.mp found).bind fun current found => ?_
  refine (safe_checked fun value encoded => encoded).bind fun value encoded => ?_
  refine (safe_sized (fits_ok ?_)).andThen safe_check
  rw [length_encode]
  exact (fitting.pending current found).2 value encoded

theorem safe_writeJournal {journal : Journal} (signs : Signs hmac) (prepared : Prepared plan)
    (room : HasRoom plan) (own : OwnJournal plan journal) :
    Safe plan (OwnJournal plan) (writeJournal hmac secret context checks moment journal) := by
  refine (safe_checked fun next sealed =>
    sealJournal_fits signs prepared room.journal own sealed).bind
    fun next fitting => ?_
  refine (safe_checked fun value encoded => encoded).bind fun value encoded => ?_
  refine (safe_sized (bounded_ok ?_)).andThen (safe_check.andThen ?_)
  · rw [length_encode]
    exact fitting.2 value encoded
  · refine (keeps_modify fun workspace kept => ?_).andThen (keeps_pure fitting.1)
    refine ⟨kept.files, ?_, kept.receipt⟩
    rintro other ⟨⟩
    exact fitting

theorem safe_saveJournal {journal : Journal} {new : Bool} (signs : Signs hmac)
    (prepared : Prepared plan) (room : HasRoom plan) (own : OwnJournal plan journal) :
    Safe plan (OwnJournal plan) (saveJournal hmac secret context checks moment journal new) := by
  have write := @safe_writeJournal hmac secret plan context checks moment journal signs prepared
    room own
  cases new with
  | true => exact write
  | false => exact safe_requireCurrent.andThen write

theorem safe_verify {recovery : Bool} :
    Safe plan (fun _ => True) (verify context checks moment plan recovery) := by
  refine keeps_get.bind fun workspace fitting => ?_
  refine (keeps_forM fun entry member => ?_).andThen (safe_check.andThen safe_check)
  exact safe_sized (fits_ok (fitting.files entry member))

theorem safe_requireOutputs :
    Safe plan (fun _ => True) (requireOutputs context checks moment plan) :=
  keeps_forM fun _ _ => safe_readControlled.bind fun _ _ => safe_check

theorem safe_clearPending :
    Safe plan (fun _ => True) (clearPending hmac secret context checks plan) := by
  refine safe_readJournal.bind fun found _ => ?_
  refine (safe_checked fun retained _ => trivial).bind fun retained (_ : True) => ?_
  refine safe_check.andThen (safe_check.andThen (keeps_modify fun workspace kept => ?_))
  exact ⟨kept.files, fun journal impossible => (nomatch impossible), kept.receipt⟩

theorem safe_replaceFile {before after : String} (small : (bytesOf after).length ≤ maxFile) :
    Safe plan (fun _ => True) (replaceFile context checks name before after) := by
  refine (safe_sized (bounded_ok small)).andThen (safe_readControlled.bind fun current _ => ?_)
  refine safe_check.andThen (safe_check.andThen ?_)
  refine (keeps_modify fun workspace kept => ⟨fun entry member => ?_, kept.pending,
    kept.receipt⟩).andThen (safe_readControlled.bind fun current _ => safe_check)
  rcases OrderedMap.mem_put member with rfl | other
  · exact small
  · exact kept.files entry other

theorem safe_replaceOutput {progress : Journal × Nat} {after : String}
    (small : (bytesOf after).length ≤ maxFile) :
    Safe plan (fun _ => True) (replaceOutput context checks plan progress name after) := by
  refine safe_readControlled.bind fun current _ => ?_
  cases current == after with
  | true => exact keeps_pure trivial
  | false =>
      refine safe_check.andThen (safe_check.andThen (safe_check.andThen ?_))
      exact (safe_replaceFile small).andThen (safe_check.andThen (keeps_pure trivial))

theorem safe_applyOutput {progress : Journal × Nat} {output : String × String}
    (signs : Signs hmac) (prepared : Prepared plan) (room : HasRoom plan)
    (member : output ∈ plan.outputs.entries) (own : OwnJournal plan progress.1) :
    Safe plan (fun progress => OwnJournal plan progress.1)
      (applyOutput hmac secret context checks plan progress output) := by
  refine safe_check.andThen (safe_verify.andThen ?_)
  refine (safe_replaceOutput (prepared.files_fit (.inr member))).bind fun writes _ => ?_
  refine safe_check.andThen ((safe_saveJournal signs prepared room ?_).bind
    fun journal saved => keeps_pure saved)
  refine ⟨own.version, own.same, fun name present => ?_, own.locked⟩
  rcases OrderedMap.mem_keys_insert.mp present with rfl | earlier
  · exact List.mem_map_of_mem member
  · exact own.progress name earlier

theorem safe_checkReceipt {receipt : Receipt} (small : ReceiptFits receipt) :
    Safe plan (fun _ => True) (checkReceipt hmac secret context plan receipt) := by
  refine (safe_checked fun value encoded => encoded).bind fun value encoded => ?_
  refine (safe_sized (fits_ok ?_)).andThen ?_
  · rw [length_encode]
    exact small value encoded
  · exact (safe_checked fun same _ => trivial).bind fun same (_ : True) => safe_check

theorem safe_writeReceipt (signs : Signs hmac) (room : HasRoom plan) :
    Safe plan (fun _ => True) (writeReceipt hmac secret context checks plan) := by
  refine (safe_checked fun instant _ => trivial).bind fun instant (_ : True) => ?_
  refine (safe_checked fun receipt sealed => sealed).bind fun receipt sealed => ?_
  refine (safe_checked fun value encoded => encoded).bind fun value encoded => ?_
  have small : ReceiptFits receipt := by
    intro value encoded
    obtain ⟨inner, written, size⟩ := sealReceipt_size signs sealed encoded
    exact size ▸ room inner written
  refine (safe_sized (bounded_ok ?_)).andThen (safe_check.andThen ?_)
  · rw [length_encode]
    exact small value encoded
  · refine (keeps_modify fun workspace kept => ⟨kept.files, kept.pending, ?_⟩).andThen safe_check
    rintro other ⟨⟩
    exact small

theorem safe_startJournal {pending : Option Journal} {lockDigest : String} (signs : Signs hmac)
    (prepared : Prepared plan) (room : HasRoom plan)
    (own : ∀ journal, pending = some journal → OwnJournal plan journal)
    (locked : isSha256Text lockDigest = true) :
    Safe plan (OwnJournal plan)
      (startJournal hmac secret context checks plan pending lockDigest) := by
  cases pending with
  | some journal => exact keeps_pure (own journal rfl)
  | none =>
      refine safe_check.andThen (safe_saveJournal signs prepared room ?_)
      exact ⟨rfl, rfl, fun name impossible => (nomatch impossible), locked⟩

theorem safe_applyLocked {pending : Option Journal} {lockDigest : String} (signs : Signs hmac)
    (prepared : Prepared plan) (room : HasRoom plan)
    (own : ∀ journal, pending = some journal → OwnJournal plan journal)
    (locked : isSha256Text lockDigest = true) :
    Safe plan (fun _ => True)
      (applyLocked hmac secret context checks plan pending lockDigest) := by
  refine safe_check.andThen (keeps_get.bind fun workspace fitting => ?_)
  cases written : workspace.receipt with
  | some receipt =>
      refine (safe_checkReceipt (fitting.receipt receipt written)).andThen ?_
      cases pending with
      | none => exact keeps_pure trivial
      | some journal =>
          exact safe_verify.andThen (safe_requireOutputs.andThen
            (safe_check.andThen safe_clearPending))
  | none =>
      refine safe_verify.andThen
        ((safe_startJournal signs prepared room own locked).bind fun journal started => ?_)
      have relocked : OwnJournal plan { journal with lockDigest := lockDigest } :=
        ⟨started.version, started.same, started.progress, locked⟩
      refine safe_check.andThen ((safe_saveJournal signs prepared room relocked).bind
        fun journal saved => ?_)
      have outputs : Safe plan (fun progress => OwnJournal plan progress.1)
          (plan.outputs.entries.foldlM (applyOutput hmac secret context checks plan)
            (journal, 0)) :=
        keeps_foldlM saved fun output member progress own =>
          safe_applyOutput signs prepared room member own
      refine outputs.bind fun progress _ => safe_verify.andThen (safe_requireOutputs.andThen ?_)
      exact safe_check.andThen ((safe_writeReceipt signs room).andThen
        (safe_check.andThen safe_clearPending))

/-- A plan with room for its receipt never stops a call at the bound of the storage. -/
theorem safe_apply {approval : String} (signs : Signs hmac) (prepared : Prepared plan)
    (room : HasRoom plan) :
    Safe plan (fun _ => True) (apply hmac secret context checks plan approval) := by
  obtain ⟨value, encoded, small⟩ := prepared.encoded
  refine (safe_checked fun other found => found).bind fun other found => ?_
  rw [encoded, Except.ok.injEq] at found
  subst found
  refine (safe_sized (fits_ok ?_)).andThen ?_
  · rw [length_encode]
    exact small
  refine (safe_sized (fits_ok prepared.preview)).andThen (safe_check.andThen
    (safe_check.andThen ?_))
  refine safe_readJournal.bind fun pending own => ?_
  have same : Safe plan (fun _ => True) (requireSamePlan context plan pending) := by
    cases pending with
    | none => exact keeps_pure trivial
    | some journal =>
        exact (safe_checked fun same _ => trivial).bind fun same (_ : True) => safe_check
  refine same.andThen ((safe_checked fun now _ => trivial).bind fun now (_ : True) => ?_)
  refine (safe_checked fun lock _ => trivial).bind fun lock (_ : True) => ?_
  exact (safe_applyLocked signs prepared room (fun journal found => (own journal found).1)
    lock.property).andThen safe_check

/-! ## All calls for a plan -/

/-- A call with what comes from outside, which may stop it at any place. -/
structure ApplyCall where
  secret : List UInt8
  context : TaskContext
  checks : Checks
  approval : String

def ApplyCall.run (hmac : Hmac) (plan : Plan) (call : ApplyCall) (workspace : Workspace) :
    Except Stop Unit × Workspace :=
  result (apply hmac call.secret call.context call.checks plan call.approval) workspace

def afterCalls (hmac : Hmac) (plan : Plan) (calls : List ApplyCall) : Workspace :=
  calls.foldl (fun workspace call => (call.run hmac plan workspace).2) ⟨plan.input.files, none, none⟩

/-- The plan's journal fits the storage at every progress. -/
def JournalsFit (hmac : Hmac) (plan : Plan) : Prop :=
  ∀ (secret : List UInt8) (completed : Names) (lockDigest : DigestText) (journal : Journal),
    (∀ name ∈ completed.keys, name ∈ plan.outputs.keys) →
    sealJournal hmac secret { newJournal plan lockDigest.val with completed := completed } =
      .ok journal → JournalFits journal

/-- The plan's journal at every progress, and its receipt, fit the storage. -/
def RecordsFit (hmac : Hmac) (plan : Plan) : Prop :=
  JournalsFit hmac plan ∧
  ∀ (secret : List UInt8) (instant : Instant) (receipt : Receipt),
    sealReceipt hmac secret (newReceipt plan instant.timestamp) = .ok receipt → ReceiptFits receipt

/-- No call stops at the bound of the storage where an output is in place already. -/
def NeverStopsHalfway (hmac : Hmac) (plan : Plan) : Prop :=
  ∀ (calls : List ApplyCall) (call : ApplyCall) (failure : Failure) (workspace : Workspace),
    call.run hmac plan (afterCalls hmac plan calls) = (.error (.size failure), workspace) →
    ∀ name after, plan.outputs.get name = some after → workspace.files.get name ≠ some after

theorem fitting_afterCalls (signs : Signs hmac) (prepared : Prepared plan) (room : HasRoom plan)
    (calls : List ApplyCall) : Fitting plan (afterCalls hmac plan calls) := by
  have start : Fitting plan ⟨plan.input.files, none, none⟩ :=
    ⟨fun entry member => prepared.files_fit (.inl member), fun _ impossible => (nomatch impossible),
      fun _ impossible => (nomatch impossible)⟩
  rw [afterCalls]
  generalize Workspace.mk plan.input.files none none = workspace at start
  induction calls generalizing workspace with
  | nil => exact start
  | cons call rest ih => exact ih _ (safe_apply signs prepared room workspace start).1

theorem journalsFit (signs : Signs hmac) (prepared : Prepared plan) (room : HasJournalRoom plan) :
    JournalsFit hmac plan := by
  intro secret completed lockDigest journal progress sealed
  exact (sealJournal_fits signs prepared room ⟨rfl, rfl, progress, lockDigest.property⟩ sealed).2

theorem recordsFit_iff (signs : Signs hmac) (prepared : Prepared plan) :
    RecordsFit hmac plan ↔ HasRoom plan := by
  constructor
  · rintro ⟨-, receipts⟩ inner written
    obtain ⟨receipt, value, sealed, encoded⟩ := @sealReceipt_total
      (newReceipt plan (Instant.timestamp ⟨0, by decide⟩)) inner written hmac []
    obtain ⟨other, found, size⟩ := sealReceipt_size signs sealed encoded
    rw [written, Except.ok.injEq] at found
    rw [found, ← size]
    exact receipts [] _ receipt sealed value encoded
  · intro room
    refine ⟨journalsFit signs prepared room.journal,
      fun secret instant receipt sealed value encoded => ?_⟩
    obtain ⟨inner, written, size⟩ := sealReceipt_size signs sealed encoded
    exact size ▸ room inner written

/-- A prepared plan can be applied to its end, with records that fit, exactly where its JSON leaves
room for what the receipt takes beyond it. -/
theorem prepare_applies_iff {around : PrepareSources} {input : Capture} {draft : Draft}
    {selection : Selection} {review : IntentReview} (signs : Signs around.hmac)
    (controlled : input.files.keys = controlledNames)
    (accepted : prepare around input draft selection review = .ok plan) :
    (RecordsFit around.hmac plan ∧ NeverStopsHalfway around.hmac plan) ↔
      ∃ value, plan.toJson = .ok value ∧ (encode value).length + 570 ≤ maxFile := by
  obtain ⟨prepared, -⟩ := prepare_ok controlled accepted
  obtain ⟨value, encoded, -⟩ := prepared.encoded
  have room : HasRoom plan ↔
      ∃ value, plan.toJson = .ok value ∧ (encode value).length + 570 ≤ maxFile := by
    constructor
    · intro room
      exact ⟨value, encoded, length_encode value ▸ room value encoded⟩
    · rintro ⟨other, found, small⟩ inner written
      rw [found, Except.ok.injEq] at written
      rw [← written, ← length_encode]
      exact small
  rw [← room, recordsFit_iff signs prepared, and_iff_left_iff_imp]
  intro room calls call failure workspace stopped
  have safe := (@safe_apply around.hmac call.secret plan call.context call.checks call.approval signs
    prepared room (afterCalls around.hmac plan calls) (fitting_afterCalls signs prepared room calls)).2
  rw [ApplyCall.run] at stopped
  rw [stopped] at safe
  exact safe.elim

/-! ## A plan without room -/

/-- A draft that only resumes its task, for a reason of quotation marks. -/
def quotedDraft (count : Nat) : Draft where
  schemaVersion := 1
  rationale := String.ofList (List.replicate count '"')
  documents := OrderedMap.empty
  documentEdits := []
  tasks := []
  disposition := .resolve

def steadyDigest : String :=
  "sha256:3333333333333333333333333333333333333333333333333333333333333333"

/-- Nothing changes outside while the plan is prepared. -/
def steadySources : PrepareSources where
  intent := rootSources
  hmac _ _ := steadyDigest
  context := .ok rootContext
  fresh := .ok pausedCapture
  now := .ok afterPause
  secret := .ok []
  again := .ok pausedCapture
  directory := .ok ()
  keptPreview := none
  previewWritten := .ok ()
  keptPlan := none
  planWritten := .ok ()

def resumedQueue : TaskQueue :=
  { pausedQueue with
    tasks := rescheduled [resolveTask [] afterPause pausedTask] 0
      ⟨[pausedTask], ∅, [], OrderedMap.empty⟩
    component :=
      revisedComponent rootSources pausedQueue.component pausedFiles none afterPause }

def resumedTexts : Texts :=
  (pausedFiles.insert todosName (canonicalText resumedQueue)).retain fun name text =>
    pausedFiles.get name != some text

def plainSelection : Selection := ⟨none, "Resume."⟩

def plainReview : IntentReview := ⟨"Reviewed.", false⟩

def quotedPlan (count : Nat) : Plan where
  schemaVersion := 1
  id := "3333333333333333333333333333333333333333333333333333333333333333"
  approval := steadyDigest
  input := pausedCapture
  selection := plainSelection
  rationale := (quotedDraft count).rationale
  review := plainReview
  outputs := resumedTexts
  retired := []
  retirementReasons := OrderedMap.empty
  disposition := .resolve
  createdAt := afterPause
  authenticationTag := "hmac-sha256:" ++ steadyDigest

def pausedJson : Value := .object (captureMembers pausedCapture (.string "."))

def quotedJson (count : Nat) : Value := .object (planMembers (quotedPlan count) pausedJson)

theorem quoteBytes_quoted (count : Nat) :
    quoteBytes (quotedDraft count).rationale = 2 * count + 2 := by
  have each : ∀ count, utf8Bytes ((List.replicate count '"').flatMap escape) = 2 * count := by
    intro count
    induction count with
    | zero => rfl
    | succ count ih =>
        have two : utf8Bytes (escape '"') = 2 := by decide
        rw [List.replicate_succ, List.flatMap_cons, utf8Bytes_append, ih, two]
        omega
  rw [quoteBytes_eq, quotedDraft, String.toList_ofList, each]

/-- What the JSON of the plan takes beside the quotation marks of its reason. -/
def quotedBase : Nat := serializedBytes (quotedJson 0)

theorem serializedBytes_rationale (plan : Plan) (input : Value) (first second : String) :
    serializedBytes (.object (planMembers { plan with rationale := first } input)) +
      quoteBytes second =
    serializedBytes (.object (planMembers { plan with rationale := second } input)) +
      quoteBytes first := by
  rw [serializedBytes_object (by simp [planMembers]), serializedBytes_object (by simp [planMembers])]
  simp only [planMembers, List.map_cons, List.map_nil, List.sum_cons, List.sum_nil, memberBytes,
    serializedBytes_string]
  omega

theorem serializedBytes_quotedJson (count : Nat) :
    serializedBytes (quotedJson count) = quotedBase + 2 * count := by
  have grown := serializedBytes_rationale (quotedPlan 0) pausedJson (quotedDraft count).rationale
    (quotedDraft 0).rationale
  rw [quoteBytes_quoted, quoteBytes_quoted] at grown
  change serializedBytes (quotedJson count) + _ = quotedBase + _ at grown
  generalize serializedBytes (quotedJson count) = whole at grown ⊢
  generalize quotedBase = base at grown ⊢
  omega

theorem quoted_sizes :
    sizeBound (quotedJson 0) ≤ 60000 ∧ 300 ≤ (canonicalText pausedQueue).utf8ByteSize ∧
      (canonicalText resumedQueue).utf8ByteSize ≤ maxFile ∧
      previewBound (quotedPlan 0) ≤ 59000 ∧
      (pausedFiles.values.map fun text => text.utf8ByteSize).sum +
        (resumedTexts.values.map fun text => text.utf8ByteSize).sum ≤ 60000 := by
  decide +kernel

theorem quotedBase_le : quotedBase ≤ 60000 :=
  (serializedBytes_le _).trans quoted_sizes.1

theorem quotedBase_ge : 300 ≤ quotedBase := by
  have captured : ("input", pausedJson) ∈ planMembers (quotedPlan 0) pausedJson :=
    .tail _ (.tail _ (.tail _ (.head _)))
  have files : ("files", textsJson pausedFiles) ∈ captureMembers pausedCapture (.string ".") :=
    .tail _ (.tail _ (.tail _ (.tail _ (.head _))))
  have inside := (serializedBytes_member_le files).trans (serializedBytes_member_le captured)
  have present : (todosName, canonicalText pausedQueue) ∈ pausedFiles.entries :=
    OrderedMap.mem_of_lookup OrderedMap.get_insert_same
  have size : 300 ≤ (bytesOf (canonicalText pausedQueue)).length := by
    rw [length_bytesOf]
    exact quoted_sizes.2.1
  exact size.trans ((texts_fit present).trans inside)

theorem pausedPath : pathJson pausedCapture.component = .ok (.string ".") := by
  have text : Utf8.fromUtf8 pausedCapture.component = some ['.'] :=
    Utf8.fromUtf8_eq_some_iff.mpr rfl
  rw [pathJson, text]

theorem pausedPlan_toJson {plan : Plan} (same : plan.input = pausedCapture) :
    plan.toJson = .ok (.object (planMembers plan pausedJson)) := by
  simp only [Plan.toJson, Capture.toJson, bind_ok_iff, same]
  exact ⟨pausedJson, ⟨.string ".", pausedPath, rfl⟩, rfl⟩

theorem quotedPlan_toJson (count : Nat) : (quotedPlan count).toJson = .ok (quotedJson count) :=
  pausedPlan_toJson rfl

theorem serializedBytes_quotedDraft (count : Nat) :
    serializedBytes (quotedDraft count).toJson ≤ 2 * count + 200 := by
  have names : ["schema_version", "rationale", "documents", "document_edits", "tasks",
      "disposition", "resolve"].map quoteBytes = [16, 11, 11, 16, 7, 13, 9] :=
    (quoteBytes_names (by decide)).trans (by decide)
  simp only [List.map_cons, List.map_nil, List.cons.injEq, and_true] at names
  have version : serializedBytes (natural 1) = 1 := by decide
  have array : serializedBytes (.array []) = 2 := by decide
  have object : serializedBytes (.object []) = 2 := by decide
  rw [Draft.toJson, serializedBytes_object (by simp)]
  simp only [List.map_cons, List.map_nil, List.sum_cons, List.sum_nil, memberBytes,
    serializedBytes_string, quoteBytes_quoted]
  dsimp only [quotedDraft, Disposition.name, textsJson, OrderedMap.empty]
  rw [List.map_nil, List.map_nil, List.map_nil, version, array, object]
  omega

theorem quotedDraft_rationale {count : Nat} (some : 0 < count) :
    Text.isBlank (quotedDraft count).rationale = false := by
  refine @isBlank_eq_false_of_mem (quotedDraft count).rationale '"' ?_ (by decide)
  rw [quotedDraft, String.toList_ofList, List.mem_replicate]
  exact ⟨some.ne', rfl⟩

/-- The task is resumed, with nothing else changed. -/
theorem quotedDraft_accepted {count : Nat} (some : 0 < count) (small : 2 * count + 200 ≤ maxFile) :
    outputs rootSources rootContext pausedCapture (quotedDraft count) afterPause =
      .ok ⟨resumedTexts, [], OrderedMap.empty, (quotedDraft count).rationale⟩ := by
  have reason : ensure ((quotedDraft count).schemaVersion == 1 &&
      !Text.isBlank (quotedDraft count).rationale) (fail rootContext.componentDir
        "draft requires schema_version 1 and a nonblank rationale") = .ok () := by
    rw [ensure_ok_iff, quotedDraft_rationale some]
    rfl
  have bytes : bounded (encode (quotedDraft count).toJson) (bytesOf "draft") = .ok () := by
    rw [bounded_ok_iff, length_encode]
    exact (serializedBytes_quotedDraft count).trans small
  have valid : validate resumedQueue = .ok () := by decide
  have fits : bounded (bytesOf (canonicalText resumedQueue)) (bytesOf todosName) = .ok () := by
    rw [bounded_ok_iff, length_bytesOf]
    exact quoted_sizes.2.2.1
  have written : serializeQueue rootContext resumedQueue = .ok (canonicalText resumedQueue) := by
    rw [serializeQueue, serialize_of_validate valid]
  simp only [outputs, bind_ok_iff]
  exact ⟨(), reason, (), bytes, _, pausedFiles_materialize, 0, rfl, _, rfl, _, rfl, none,
    rfl, _, written, (), fits, rfl⟩

theorem quotedPlan_preview (count : Nat) :
    utf8Bytes (preview (quotedPlan count)) ≤ count + 60000 := by
  have clear : '\x60' ∉ (quotedPlan count).rationale.toList := by
    change '\x60' ∉ (String.ofList (List.replicate count '"')).toList
    rw [String.toList_ofList]
    intro member
    exact absurd (List.eq_of_mem_replicate member) (by decide)
  have reason : utf8Bytes (quotedPlan count).rationale.toList = count := by
    change utf8Bytes (String.ofList (List.replicate count '"')).toList = count
    rw [String.toList_ofList, utf8Bytes_replicate count (by decide)]
  have block := codeBlock_bytes_clear clear
  have rest : previewBound (quotedPlan count) = previewBound (quotedPlan 0) := rfl
  have bound := quoted_sizes.2.2.2.1
  have whole := preview_bytes (quotedPlan count)
  omega

theorem pausedPlan_identity {plan : Plan} (same : plan.input = pausedCapture) :
    identity rootSources.digest plan = .ok ((quotedPlan 0).id, steadyDigest) := by
  have name : String.ofList (trimStartMatches "sha256:".toList steadyDigest.toList.length
      steadyDigest.toList) = (quotedPlan 0).id := by decide
  rw [identity, pausedPlan_toJson (by exact same)]
  change Except.ok (String.ofList (trimStartMatches "sha256:".toList steadyDigest.toList.length
    steadyDigest.toList), steadyDigest) = _
  rw [name]

theorem quotedPlan_sealed (count : Nat) :
    sealedPlan steadySources pausedCapture plainSelection plainReview .resolve
      ⟨resumedTexts, [], OrderedMap.empty, (quotedDraft count).rationale⟩ afterPause =
      .ok (quotedPlan count) := by
  simp only [sealedPlan, sealPlan, bind_ok_iff]
  exact ⟨_, pausedPlan_identity rfl, [], rfl, _, pausedPlan_toJson rfl, rfl⟩

theorem quoted_total {json markdown files outputs : Nat} (bytes : json ≤ maxFile)
    (shown : markdown ≤ maxFile) (texts : files + outputs ≤ 60000) :
    saturatingAdd (saturatingAdd (saturatingAdd json markdown) files) outputs ≤ maxTotal := by
  simp only [saturatingAdd, maxFile, maxTotal] at *
  omega

theorem retain_new {path : PathBytes} {text : List UInt8} (small : text.length ≤ maxFile) :
    retain path text none (.ok ()) = .ok () := by
  simp only [retain, bind_ok_iff]
  exact ⟨(), bounded_ok_iff.mpr small, trivial⟩

/-- A plan is prepared as long as its own JSON fits. -/
theorem quotedPlan_prepared {count : Nat} (some : 0 < count)
    (small : quotedBase + 2 * count ≤ maxFile) :
    prepare steadySources pausedCapture (quotedDraft count) plainSelection plainReview =
      .ok (quotedPlan count) := by
  have base := quotedBase_ge
  have json : (encode (quotedJson count)).length = quotedBase + 2 * count := by
    rw [length_encode, serializedBytes_quotedJson]
  have markdown : (utf8 (preview (quotedPlan count))).length ≤ count + 60000 :=
    length_utf8 (preview (quotedPlan count)) ▸ quotedPlan_preview count
  have same : sameCapture pausedCapture pausedCapture = .ok true := by
    have path : pausedCapture.toJson = .ok pausedJson := by
      simp only [Capture.toJson, bind_ok_iff]
      exact ⟨.string ".", pausedPath, rfl⟩
    simp only [sameCapture, bind_ok_iff]
    exact ⟨_, path, _, path, congrArg Except.ok (beq_self_eq_true _)⟩
  have texts : totalSize pausedFiles + totalSize resumedTexts ≤ 60000 := by
    simp only [totalSize, length_bytesOf]
    exact quoted_sizes.2.2.2.2
  have reviewed : checkAll (fun text => bounded (bytesOf text) (bytesOf "decision input"))
      [plainReview.report, plainSelection.guidance] = .ok () := by
    rw [checkAll_ok_iff]
    intro text member
    rw [bounded_ok_iff, length_bytesOf]
    revert text
    decide
  have accepted := quotedDraft_accepted some (by omega)
  have bytes : (encode (quotedJson count)).length ≤ maxFile := by omega
  have shown : (utf8 (preview (quotedPlan count))).length ≤ maxFile := by
    have bound : maxFile = 1048576 := rfl
    omega
  simp only [prepare, bind_ok_iff]
  refine ⟨rootContext, rfl, pausedCapture, rfl, true, same, (), rfl, (), rfl, (), reviewed, (), rfl,
    afterPause, rfl, _, accepted, _, quotedPlan_sealed count, _, pausedPlan_toJson rfl, (),
    bounded_ok_iff.mpr bytes, (), bounded_ok_iff.mpr shown, (), ?_, pausedCapture, rfl, true, same,
    (), rfl, (), rfl, (), retain_new shown, (), retain_new bytes, rfl⟩
  exact ensure_ok_iff.mpr (decide_eq_true (quoted_total bytes shown texts))

/-- There is a number of quotation marks that leaves room for the journals and none for the receipt,
whatever the rest takes. -/
theorem exists_count_without_room {base : Nat} (small : base ≤ 60000) :
    ∃ count, 0 < count ∧ base + 2 * count + journalOverhead ≤ maxFile ∧
      ¬ base + 2 * count + receiptOverhead ≤ maxFile := by
  refine ⟨(maxFile - base - receiptOverhead) / 2 + 1, ?_⟩
  simp only [maxFile, journalOverhead, receiptOverhead]
  omega

theorem signs_steady : Signs steadySources.hmac := by
  intro secret bytes
  change isSha256Text steadyDigest = true
  decide

/-- A plan is prepared, and all of its journals fit the storage, but its receipt does not. -/
theorem prepare_without_room :
    ∃ count, prepare steadySources pausedCapture (quotedDraft count) plainSelection plainReview =
        .ok (quotedPlan count) ∧
      JournalsFit steadySources.hmac (quotedPlan count) ∧
      (∀ (secret : List UInt8) (instant : Instant) (receipt : Receipt),
        sealReceipt steadySources.hmac secret
          (newReceipt (quotedPlan count) instant.timestamp) = .ok receipt →
        ¬ReceiptFits receipt) ∧
      ¬ (RecordsFit steadySources.hmac (quotedPlan count) ∧
        NeverStopsHalfway steadySources.hmac (quotedPlan count)) := by
  obtain ⟨count, some, small, large⟩ := exists_count_without_room quotedBase_le
  have accepted := quotedPlan_prepared some (Nat.le_of_add_right_le small)
  obtain ⟨prepared, -⟩ := prepare_ok (by decide) accepted
  refine ⟨count, accepted, ?_, ?_, fun claimed => large ?_⟩
  · refine journalsFit signs_steady prepared fun value encoded => ?_
    rw [quotedPlan_toJson, Except.ok.injEq] at encoded
    rwa [← encoded, serializedBytes_quotedJson]
  · intro secret instant receipt sealed fits
    obtain ⟨final, value, found, encoded⟩ :=
      @sealReceipt_total (newReceipt (quotedPlan count) instant.timestamp) _
        (quotedPlan_toJson count) steadySources.hmac secret
    rw [sealed, Except.ok.injEq] at found
    obtain ⟨inner, written, size⟩ := sealReceipt_size signs_steady sealed (found ▸ encoded)
    rw [quotedPlan_toJson, Except.ok.injEq] at written
    rw [← written, serializedBytes_quotedJson] at size
    exact large (size ▸ fits value (found ▸ encoded))
  · have room := (recordsFit_iff signs_steady prepared).mp claimed.1 _ (quotedPlan_toJson count)
    rwa [serializedBytes_quotedJson] at room

theorem prepare_applies_iff_quoted :
    RecordsFit steadySources.hmac (quotedPlan 1) ∧
      NeverStopsHalfway steadySources.hmac (quotedPlan 1) := by
  have room : quotedBase + 2 * 1 + 570 ≤ maxFile :=
    (Nat.add_le_add_right (Nat.add_le_add_right quotedBase_le _) _).trans (by decide)
  have accepted := @quotedPlan_prepared 1 Nat.one_pos (Nat.le_of_add_right_le room)
  refine (prepare_applies_iff signs_steady (by decide) accepted).mpr
    ⟨quotedJson 1, quotedPlan_toJson 1, ?_⟩
  rw [length_encode, serializedBytes_quotedJson]
  exact room

end Kvist.Decision
