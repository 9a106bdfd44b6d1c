import Mathlib.Algebra.Order.BigOperators.Group.List
import Kvist.Decision.Transaction
import Kvist.Json.Sizes
import Kvist.TaskQueue.Timestamps

/-!
# The sizes of the records

What a journal and a receipt take beyond the plan they hold. Digests, tags and instants have the
same size everywhere, so that the receipt is the largest record of its plan.
-/

set_option autoImplicit false

namespace Kvist.Decision

open Json Queue

/-! ## Digests, tags and instants -/

theorem isSha256Text_iff {text : String} : isSha256Text text = true ↔ ∃ hex : List Char,
    text.toList = sha256Prefix.toList ++ hex ∧ hex.length = sha256HexLength ∧
      hex.all isLowerHex = true := by
  rw [isSha256Text, Option.any_eq_true]
  constructor
  · rintro ⟨hex, stripped, formed⟩
    rw [Bool.and_eq_true, beq_iff_eq] at formed
    exact ⟨hex, Text.stripLeading_eq_some_iff.mp stripped, formed⟩
  · rintro ⟨hex, whole, length, formed⟩
    exact ⟨hex, Text.stripLeading_eq_some_iff.mpr whole, by simp [length, formed]⟩

theorem plain_lowerHex {character : Char} (hex : isLowerHex character = true) :
    plainCharacter character = true := by
  have codes : ∀ code < 103, isLowerHex (Char.ofNat code) = true →
      plainCharacter (Char.ofNat code) = true := by decide
  have small : character.toNat < 103 := by
    simp only [isLowerHex, isAsciiDigit, Bool.or_eq_true, Bool.and_eq_true, decide_eq_true_eq,
      Char.le_def, UInt32.le_iff_toNat_le] at hex
    change character.val.toNat < 103
    rcases hex with ⟨-, high⟩ | ⟨-, high⟩
    · exact lt_of_le_of_lt high (by decide)
    · exact lt_of_le_of_lt high (by decide)
  have found := codes character.toNat small
  rw [Char.ofNat_toNat] at found
  exact found hex

theorem plain_sha256 {text : String} (formed : isSha256Text text = true) :
    text.toList.all plainCharacter = true ∧ text.toList.length = 71 := by
  obtain ⟨hex, whole, length, each⟩ := isSha256Text_iff.mp formed
  rw [whole, List.all_append, List.length_append, length]
  have start : sha256Prefix.toList.all plainCharacter = true := by decide
  refine ⟨?_, rfl⟩
  rw [start, Bool.true_and, List.all_eq_true]
  exact fun character member => plain_lowerHex (List.all_eq_true.mp each character member)

theorem quoteBytes_sha256 {text : String} (formed : isSha256Text text = true) :
    quoteBytes text = 73 := by
  obtain ⟨plain, length⟩ := plain_sha256 formed
  rw [quoteBytes_plain plain, length]

/-- Every tag is the text of a digest behind its name. -/
def Signs (hmac : Hmac) : Prop := ∀ secret bytes, isSha256Text (hmac secret bytes) = true

theorem quoteBytes_authenticated {hmac : Hmac} (signs : Signs hmac) (value : Value)
    (secret : List UInt8) : quoteBytes (authenticated hmac value secret) = 85 := by
  rw [authenticated]
  generalize encode _ = bytes
  obtain ⟨plain, length⟩ := plain_sha256 (signs secret bytes)
  have start : "hmac-sha256:".toList.all plainCharacter = true := by decide
  rw [quoteBytes_plain, String.toList_append, List.length_append, length]
  · rfl
  · rw [String.toList_append, List.all_append, start, plain, Bool.true_and]

theorem plain_digits {length : Nat} {text : List Char} (digits : Digits length text) :
    text.all plainCharacter = true := by
  rw [List.all_eq_true]
  intro character member
  refine plain_lowerHex ?_
  rw [isLowerHex, digits.2 character member, Bool.true_or]

theorem quoteBytes_timestamp (instant : Instant) : quoteBytes instant.timestamp.value = 22 := by
  have layout := ((Timestamp.validate_ok_iff _ _).mp
    (unixSecondsToRfc3339_valid instant.early "applied_at").1).1
  obtain ⟨digits, written⟩ := exists_instantDigits layout
  have plain : (digits.text).all plainCharacter = true := by
    simp only [InstantDigits.text, instantText, List.all_append, List.all_cons, List.all_nil,
      plain_digits digits.yearDigits, plain_digits digits.monthDigits,
      plain_digits digits.dayDigits, plain_digits digits.hourDigits,
      plain_digits digits.minuteDigits, plain_digits digits.secondDigits]
    decide
  have length : digits.text.length = 20 := by
    simp only [InstantDigits.text, instantText, List.length_append, List.length_cons,
      List.length_nil, digits.yearDigits.1, digits.monthDigits.1, digits.dayDigits.1,
      digits.hourDigits.1, digits.minuteDigits.1, digits.secondDigits.1]
  rw [quoteBytes_plain, Instant.timestamp, written, length]
  rw [Instant.timestamp, written]
  exact plain

/-! ## Journals and receipts -/

/-- What a receipt takes beyond its plan. -/
def receiptOverhead : Nat := 570

theorem serializedBytes_receiptMembers (receipt : Receipt) (value : Value) :
    serializedBytes (.object (receiptMembers receipt value)) =
      serializedBytes value + serializedBytes (natural receipt.schemaVersion) +
      quoteBytes receipt.appliedAt.value + quoteBytes receipt.followUp +
      (([receipt.sourceDerivedEvidenceStale, receipt.executionAccepted,
        receipt.complianceCertified, receipt.modelFindingsAccepted, receipt.gitPublished].map
        fun flag => serializedBytes (.boolean flag)).sum) +
      quoteBytes receipt.authenticationTag + 199 := by
  have names : ["schema_version", "plan", "applied_at", "source_derived_evidence_stale",
      "follow_up", "execution_accepted", "compliance_certified", "model_findings_accepted",
      "git_published", "authentication_tag"].map quoteBytes =
      [16, 6, 12, 31, 11, 20, 22, 25, 15, 20] :=
    (quoteBytes_names (by decide)).trans (by decide)
  simp only [List.map_cons, List.map_nil, List.cons.injEq, and_true] at names
  rw [serializedBytes_object (by simp [receiptMembers])]
  simp only [receiptMembers, List.map_cons, List.map_nil, List.sum_cons, List.sum_nil,
    memberBytes, timestampJson, serializedBytes_string, names]
  omega

theorem quoteBytes_followUpText : quoteBytes followUpText = 239 := by
  rw [quoteBytes_of_bytes (by decide +kernel)]
  decide +kernel

theorem serializedBytes_receipt {hmac : Hmac} (signs : Signs hmac) (plan : Plan)
    (instant : Instant) (tagged : Value) (secret : List UInt8) (value : Value) :
    serializedBytes (.object (receiptMembers { newReceipt plan instant.timestamp with
      authenticationTag := authenticated hmac tagged secret } value)) =
      serializedBytes value + receiptOverhead := by
  have flags : ([true, false, false, false, false].map fun flag =>
      serializedBytes (.boolean flag)).sum = 24 := by decide
  have version : serializedBytes (natural 1) = 1 := by decide
  rw [serializedBytes_receiptMembers]
  dsimp only [newReceipt]
  rw [quoteBytes_followUpText, quoteBytes_authenticated signs, quoteBytes_timestamp, flags,
    version, receiptOverhead]

/-- The files that a plan is about. -/
def controlledNames : List String := ["CONTRACT.md", "DESIGN.md", "REQUIREMENTS.md", "TODOS.yaml"]

theorem serializedBytes_completed {completed : Names}
    (controlled : ∀ name ∈ completed.keys, name ∈ controlledNames) :
    serializedBytes (stringsJson completed.keys) ≤ 59 := by
  have sizes : (controlledNames.map fun name => quoteBytes name + 1).sum = 57 := by decide
  -- The completed names are some of the controlled ones, each of them once.
  obtain ⟨part, same, inside⟩ := List.subperm_of_subset completed.keys_nodup controlled
  have fewer := (inside.map fun name => quoteBytes name + 1).sum_le_sum
    fun size _ => Nat.zero_le size
  rw [(same.map _).sum_eq, sizes] at fewer
  refine (serializedBytes_array_le _).trans ?_
  rw [List.map_map]
  change 2 + (completed.keys.map fun name => serializedBytes (.string name) + 1).sum ≤ 59
  simp only [serializedBytes_string]
  omega

/-- What a journal takes at most beyond its plan. -/
def journalOverhead : Nat := 295

/-- A journal takes less than the receipt, whatever is completed. -/
theorem serializedBytes_journal {hmac : Hmac} (signs : Signs hmac) {journal : Journal}
    (version : journal.schemaVersion = 1)
    (controlled : ∀ name ∈ journal.completed.keys, name ∈ controlledNames)
    (locked : isSha256Text journal.lockDigest = true) (tagged : Value) (secret : List UInt8)
    (value : Value) :
    serializedBytes (.object (journalMembers { journal with
      authenticationTag := authenticated hmac tagged secret } value)) ≤
      serializedBytes value + journalOverhead := by
  have names : ["schema_version", "plan", "completed", "lock_digest",
      "authentication_tag"].map quoteBytes = [16, 6, 11, 13, 20] :=
    (quoteBytes_names (by decide)).trans (by decide)
  simp only [List.map_cons, List.map_nil, List.cons.injEq, and_true] at names
  have one : serializedBytes (natural 1) = 1 := by decide
  have tag := quoteBytes_authenticated signs tagged secret
  have progress := serializedBytes_completed controlled
  rw [serializedBytes_object (by simp [journalMembers])]
  simp only [journalMembers, version, List.map_cons, List.map_nil, List.sum_cons, List.sum_nil,
    memberBytes, serializedBytes_string, one, tag, quoteBytes_sha256 locked, names,
    journalOverhead]
  omega

/-! ## Previews -/

theorem splitOnP_length_le (separator : Char → Bool) (text : List Char) :
    ∀ piece ∈ text.splitOnP separator, piece.length ≤ text.length := by
  induction text with
  | nil =>
      intro piece member
      rw [List.splitOnP_nil, List.mem_singleton] at member
      rw [member]
  | cons character rest ih =>
      intro piece member
      rw [List.splitOnP_cons_eq_if_modifyHead] at member
      split at member
      · rcases List.mem_cons.mp member with rfl | later
        · exact Nat.zero_le _
        · exact Nat.le_succ_of_le (ih piece later)
      · cases pieces : rest.splitOnP separator with
        | nil => exact absurd pieces (List.splitOnP_ne_nil _ _)
        | cons first others =>
            rw [pieces] at member ih
            rcases List.mem_cons.mp member with rfl | later
            · exact Nat.succ_le_succ (ih first List.mem_cons_self)
            · exact Nat.le_succ_of_le (ih piece (List.mem_cons_of_mem _ later))

theorem splitOnP_clear {separator : Char → Bool} {text : List Char}
    (each : ∀ character ∈ text, separator character = true) :
    ∀ piece ∈ text.splitOnP separator, piece = [] := by
  induction text with
  | nil =>
      intro piece member
      rwa [List.splitOnP_nil, List.mem_singleton] at member
  | cons character rest ih =>
      rw [List.forall_mem_cons] at each
      intro piece member
      rw [List.splitOnP_cons_eq_if_modifyHead, if_pos each.1] at member
      rcases List.mem_cons.mp member with rfl | later
      · rfl
      · exact ih each.2 piece later

theorem foldr_max_le {sizes : List Nat} {bound : Nat} (each : ∀ size ∈ sizes, size ≤ bound) :
    sizes.foldr max 0 ≤ bound := by
  induction sizes with
  | nil => exact Nat.zero_le _
  | cons size rest ih =>
      rw [List.forall_mem_cons] at each
      exact Nat.max_le.mpr ⟨each.1, ih each.2⟩

theorem length_le_utf8Bytes (text : List Char) : text.length ≤ utf8Bytes text := by
  induction text with
  | nil => exact Nat.le_refl 0
  | cons character rest ih =>
      have positive := character.utf8Size_pos
      rw [List.length_cons, utf8Bytes]
      omega

theorem utf8Bytes_replicate (count : Nat) {character : Char} (ascii : character.utf8Size = 1) :
    utf8Bytes (List.replicate count character) = count := by
  induction count with
  | zero => rfl
  | succ count ih => rw [List.replicate_succ, utf8Bytes_ascii ascii, ih]

/-- The size of a block from the longest run of backticks that is possible in it. -/
theorem codeBlock_bytes_le {text : List Char} {longest : Nat}
    (runs : ∀ piece ∈ text.splitOnP (· != '\x60'), piece.length ≤ longest) :
    utf8Bytes (codeBlock text) ≤ utf8Bytes text + 2 * longest + 9 := by
  have fenced : ((text.splitOnP (· != '\x60')).map List.length).foldr max 0 ≤ longest := by
    refine foldr_max_le fun size member => ?_
    obtain ⟨piece, inside, rfl⟩ := List.mem_map.mp member
    exact runs piece inside
  have ended : utf8Bytes (if text.getLast? = some '\n' then [] else ['\n']) ≤ 1 := by
    split
    · exact Nat.zero_le 1
    · decide
  have none : utf8Bytes [] = 0 := rfl
  rw [codeBlock]
  simp only [utf8Bytes_append, utf8Bytes_replicate _ (show ('\x60' : Char).utf8Size = 1 by decide),
    utf8Bytes_ascii (show ('\n' : Char).utf8Size = 1 by decide), none]
  omega

theorem codeBlock_bytes (text : List Char) :
    utf8Bytes (codeBlock text) ≤ 3 * utf8Bytes text + 9 := by
  have whole := @codeBlock_bytes_le text text.length (splitOnP_length_le _ text)
  have small := length_le_utf8Bytes text
  omega

theorem codeBlock_bytes_clear {text : List Char} (clear : '\x60' ∉ text) :
    utf8Bytes (codeBlock text) ≤ utf8Bytes text + 9 := by
  refine @codeBlock_bytes_le text 0 fun piece member => ?_
  rw [splitOnP_clear (fun character inside => ?_) piece member, List.length_nil]
  rw [bne_iff_ne]
  rintro rfl
  exact clear inside

theorem format_bytes (template : List Char) (arguments : List (List Char)) :
    utf8Bytes (format template arguments) ≤
      utf8Bytes template + (arguments.map utf8Bytes).sum := by
  fun_induction format template arguments with
  | case1 rest argument arguments ih =>
      rw [utf8Bytes_append, List.map_cons, List.sum_cons, utf8Bytes, utf8Bytes]
      omega
  | case2 character rest arguments other ih =>
      rw [utf8Bytes, utf8Bytes]
      omega
  | case3 arguments => exact Nat.zero_le _

/-- A bound on the preview beside the block of the rationale, from the sizes of the texts alone. -/
def previewBound (plan : Plan) : Nat :=
  let command := commandTemplate.utf8ByteSize +
    utf8Bytes (componentArgument plan.input.component) + plan.id.utf8ByteSize +
    plan.approval.utf8ByteSize
  let files := plan.input.files.entries.map fun entry =>
    fileTemplate.utf8ByteSize + entry.1.utf8ByteSize + (3 * entry.2.utf8ByteSize + 9) +
      (3 * ((plan.outputs.get entry.1).getD entry.2).utf8ByteSize + 9)
  previewTemplate.utf8ByteSize + plan.id.utf8ByteSize +
    utf8Bytes (Utf8.fromUtf8Lossy plan.input.component) + plan.input.task.id.utf8ByteSize +
    plan.disposition.debugName.utf8ByteSize + plan.approval.utf8ByteSize +
    (3 * sizeBound plan.selection.toJson + 9) + (toString plan.review.exception).utf8ByteSize +
    (3 * plan.review.report.utf8ByteSize + 9) + applyHeading.utf8ByteSize + (3 * command + 9) +
    files.sum + retiredTemplate.utf8ByteSize +
    (3 * sizeBound (.array (plan.retired.map taskJson)) + 9) +
    (3 * sizeBound (textsJson plan.retirementReasons) + 9) + evidenceText.utf8ByteSize +
    (3 * sizeBound (textsJson plan.input.bindings) + 9)

theorem codeBlock_text (text : String) :
    utf8Bytes (codeBlock text.toList) ≤ 3 * text.utf8ByteSize + 9 :=
  utf8Bytes_toList text ▸ codeBlock_bytes text.toList

theorem codeBlock_compact (value : Value) :
    utf8Bytes (codeBlock (compact value)) ≤ 3 * sizeBound value + 9 :=
  (codeBlock_bytes _).trans
    (Nat.add_le_add_right (Nat.mul_le_mul_left 3 (serializedBytes_le value)) 9)

theorem previewFile_bytes (plan : Plan) (entry : String × String) :
    utf8Bytes (previewFile plan entry) ≤
      fileTemplate.utf8ByteSize + entry.1.utf8ByteSize + (3 * entry.2.utf8ByteSize + 9) +
        (3 * ((plan.outputs.get entry.1).getD entry.2).utf8ByteSize + 9) := by
  have whole := format_bytes fileTemplate.toList [entry.1.toList, codeBlock entry.2.toList,
    codeBlock ((plan.outputs.get entry.1).getD entry.2).toList]
  have before := codeBlock_text entry.2
  have after := codeBlock_text ((plan.outputs.get entry.1).getD entry.2)
  rw [previewFile]
  simp only [List.map_cons, List.map_nil, List.sum_cons, List.sum_nil, utf8Bytes_toList] at whole
  omega

theorem utf8Bytes_flatMap_le {α : Type} (part : α → List Char) (size : α → Nat)
    (each : ∀ value, utf8Bytes (part value) ≤ size value) (values : List α) :
    utf8Bytes (values.flatMap part) ≤ (values.map size).sum := by
  induction values with
  | nil => exact Nat.le_refl 0
  | cons value rest ih =>
      rw [List.flatMap_cons, utf8Bytes_append, List.map_cons, List.sum_cons]
      exact Nat.add_le_add (each value) ih

theorem preview_bytes (plan : Plan) :
    utf8Bytes (preview plan) ≤
      utf8Bytes (codeBlock plan.rationale.toList) + previewBound plan := by
  have files := utf8Bytes_flatMap_le _ _ (previewFile_bytes plan) plan.input.files.entries
  have opening := format_bytes previewTemplate.toList [plan.id.toList,
    Utf8.fromUtf8Lossy plan.input.component, plan.input.task.id.toList,
    plan.disposition.debugName.toList, plan.approval.toList,
    codeBlock (compact plan.selection.toJson), codeBlock plan.rationale.toList,
    (toString plan.review.exception).toList, codeBlock plan.review.report.toList]
  have selection := codeBlock_compact plan.selection.toJson
  have report := codeBlock_text plan.review.report
  have command := codeBlock_bytes (format commandTemplate.toList
    [componentArgument plan.input.component, plan.id.toList, plan.approval.toList])
  have spelled := format_bytes commandTemplate.toList
    [componentArgument plan.input.component, plan.id.toList, plan.approval.toList]
  have retired := format_bytes retiredTemplate.toList
    [codeBlock (compact (.array (plan.retired.map taskJson))),
      codeBlock (compact (textsJson plan.retirementReasons))]
  have tasks := codeBlock_compact (.array (plan.retired.map taskJson))
  have reasons := codeBlock_compact (textsJson plan.retirementReasons)
  have bindings := codeBlock_compact (textsJson plan.input.bindings)
  simp only [List.map_cons, List.map_nil, List.sum_cons, List.sum_nil, utf8Bytes_toList]
    at opening spelled retired
  rw [preview, previewBound]
  simp only [utf8Bytes_append, utf8Bytes_toList]
  omega

end Kvist.Decision
