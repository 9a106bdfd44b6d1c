import Kvist.Runtime.Session
import Kvist.Utf8
import Mathlib.Algebra.GroupWithZero.Nat

/-!
# The result of a tool as a message

What a tool leaves behind, and the preview of it that becomes the text of a message. The preview is
bounded in the bytes of its JSON text.
-/

set_option autoImplicit false

namespace Kvist.Runtime

open Json (utf8Bytes)

structure ToolOutcome where
  exited : Bool
  status : Option Int32
  stdout : List UInt8
  stderr : List UInt8
  timedOut : Bool
  outputLimitExceeded : Bool
  cancelled : Bool
  deriving DecidableEq, Repr

/-- Whether execution failed to produce an observed, uninterrupted zero exit. -/
def ToolOutcome.failed (outcome : ToolOutcome) : Bool :=
  !outcome.exited || outcome.status != some 0 || outcome.timedOut ||
    outcome.outputLimitExceeded || outcome.cancelled

def TRUNCATION_NOTICE : String := "\n[output truncated; use a smaller read/search page]\n"

def debugStatus : Option Int32 → String
  | none => "None"
  | some status => "Some(" ++ toString status.toInt ++ ")"

def processLine (outcome : ToolOutcome) : String :=
  "[process: exited=" ++ toString outcome.exited ++ ", status=" ++ debugStatus outcome.status ++
    ", timed_out=" ++ toString outcome.timedOut ++ ", cancelled=" ++ toString outcome.cancelled ++
    ", output_limit_exceeded=" ++ toString outcome.outputLimitExceeded ++ "]\n"

section Preview

variable (sha256Hex : List UInt8 → String)

/-- The longest part of the bytes that ends here or before and is UTF-8. -/
def validEnd (bytes : List UInt8) : Nat → Nat
  | 0 => 0
  | fin + 1 =>
      if (Utf8.fromUtf8 (bytes.take (fin + 1))).isSome then fin + 1 else validEnd bytes fin

def isBinary (bytes : List UInt8) : Bool :=
  bytes.contains 0 || (Utf8.fromUtf8 bytes).isNone

def binaryOmitted (bytes : List UInt8) : String :=
  "[binary output omitted: " ++ toString bytes.length ++ " bytes; sha256:" ++ sha256Hex bytes ++ "]"

def modelOutput (bytes : List UInt8) (limit : Nat) : List Char :=
  if limit = 0 then []
  else if isBinary bytes then (binaryOmitted sha256Hex bytes).toList
  else Utf8.fromUtf8Lossy (bytes.take (validEnd bytes (min bytes.length limit)))

/-- What a character is taken to cost in JSON text. -/
def previewCost (character : Char) : Nat :=
  if character = '"' ∨ character = '\\' then 2
  else if character = '\n' ∨ character = '\x0d' ∨ character = '\t' then 2
  else if character.toNat ≤ 0x1f then 6
  else character.utf8Size

/-- The characters up to the first that no longer fits. -/
def previewWithin (cap : Nat) : Nat → List Char → List Char
  | _, [] => []
  | encoded, character :: rest =>
      if cap < encoded + previewCost character then []
      else character :: previewWithin cap (encoded + previewCost character) rest

/-- The preview of an outcome, in the source the body that `record_tool_result_with_limit`
records. -/
def toolResultBody (outcome : ToolOutcome) (maxResultBytes : Nat) : List Char :=
  let line := (processLine outcome).toList
  let notice := TRUNCATION_NOTICE.toList
  let available := maxResultBytes - (utf8Bytes line + utf8Bytes notice)
  let stderrBudget := min (min available outcome.stderr.length) (available / 2)
  let stdout := modelOutput sha256Hex outcome.stdout (available - stderrBudget)
  let stderr := modelOutput sha256Hex outcome.stderr stderrBudget
  let truncated := utf8Bytes stdout < outcome.stdout.length ∨ utf8Bytes stderr < outcome.stderr.length
  let body := line ++ stdout ++ (if stderr.isEmpty then [] else "\n[stderr] ".toList ++ stderr)
  let kept := previewWithin (maxResultBytes - (utf8Bytes notice + 2)) 2 body
  let expanded := utf8Bytes kept < utf8Bytes body
  if truncated ∨ expanded ∨ outcome.outputLimitExceeded then kept ++ notice else kept

def AgentSession.recordToolResultWithLimit (session : AgentSession) (callId name : String)
    (outcome : ToolOutcome) (maxResultBytes : Nat) : AgentSession :=
  session.recordToolResult callId name
    (String.ofList (toolResultBody sha256Hex outcome maxResultBytes))

end Preview

end Kvist.Runtime

/-! ## What a preview shows

The preview fits its bound, is cut between characters, and says so when it is cut. Output that is
no text is named by its digest instead.
-/

namespace Kvist.Runtime

open Json (utf8 utf8Bytes quote escape utf8Bytes_append)

/-! ## The bytes of JSON text -/

def escapedBytes (text : List Char) : Nat := utf8Bytes (text.flatMap escape)

theorem escapedBytes_append (front back : List Char) :
    escapedBytes (front ++ back) = escapedBytes front + escapedBytes back := by
  rw [escapedBytes, List.flatMap_append, utf8Bytes_append]
  rfl

theorem quote_bytes (text : List Char) :
    utf8Bytes (quote (String.ofList text)) = escapedBytes text + 2 := by
  rw [quote, String.toList_ofList, utf8Bytes, utf8Bytes_append, escapedBytes]
  simp only [utf8Bytes]
  rw [show ('"' : Char).utf8Size = 1 from rfl]
  omega

/-- No character takes more than it is taken to cost. -/
theorem escape_le (character : Char) : utf8Bytes (escape character) ≤ previewCost character := by
  by_cases control : character.toNat < 0x20
  · have every : ∀ code < 0x20,
        utf8Bytes (escape (Char.ofNat code)) ≤ previewCost (Char.ofNat code) := by decide
    have found := every character.toNat control
    rwa [Char.ofNat_toNat] at found
  · have printed (special : Char) (below : special.toNat < 0x20) : character ≠ special := by
      intro same
      exact control (same ▸ below)
    have wide : ¬character.toNat ≤ 0x1f := by omega
    simp only [escape, previewCost, printed '\x08' (by decide), printed '\x0c' (by decide),
      printed '\n' (by decide), printed '\x0d' (by decide), printed '\t' (by decide), control, wide,
      if_false, or_self]
    by_cases quotation : character = '"'
    · rw [if_pos quotation, if_pos (Or.inl quotation)]
      decide
    · rw [if_neg quotation]
      by_cases backslash : character = '\\'
      · rw [if_pos backslash, if_pos (Or.inr backslash)]
        decide
      · rw [if_neg backslash, if_neg (not_or.mpr ⟨quotation, backslash⟩)]
        exact Nat.le_refl _

def previewCosts (text : List Char) : Nat := (text.map previewCost).sum

theorem escapedBytes_le (text : List Char) : escapedBytes text ≤ previewCosts text := by
  induction text with
  | nil => exact Nat.le_refl 0
  | cons character rest rests =>
    have first := escape_le character
    rw [escapedBytes, List.flatMap_cons, utf8Bytes_append, previewCosts, List.map_cons,
      List.sum_cons]
    exact Nat.add_le_add first rests

theorem previewWithin_leading (cap encoded : Nat) (text : List Char) :
    previewWithin cap encoded text <+: text := by
  induction text generalizing encoded with
  | nil => exact List.prefix_rfl
  | cons character rest rests =>
    rw [previewWithin]
    split
    · exact List.nil_prefix
    · exact (List.prefix_cons_inj character).mpr (rests _)

theorem previewWithin_costs {cap encoded : Nat} (room : encoded ≤ cap) (text : List Char) :
    encoded + previewCosts (previewWithin cap encoded text) ≤ cap := by
  induction text generalizing encoded with
  | nil => exact room
  | cons character rest rests =>
    rw [previewWithin]
    split
    · exact room
    · rename_i fits
      have later := rests (Nat.le_of_not_lt fits)
      rw [previewCosts, List.map_cons, List.sum_cons, ← Nat.add_assoc]
      exact later

/-! ## What is shown of a stream -/

theorem prefix_of_utf8 {front text : List Char} {rest : List UInt8}
    (same : utf8 front ++ rest = utf8 text) : front <+: text := by
  induction front generalizing text with
  | nil => exact List.nil_prefix
  | cons character front fronts =>
    obtain ⟨first, others, encoded, read⟩ := Utf8.next_utf8EncodeChar character (utf8 front ++ rest)
    have whole : utf8 (character :: front) ++ rest = first :: (others ++ (utf8 front ++ rest)) := by
      rw [utf8, List.flatMap_cons, encoded, ← utf8, List.append_assoc, List.cons_append]
    cases text with
    | nil =>
      rw [whole] at same
      cases same
    | cons other text =>
      obtain ⟨otherFirst, otherOthers, otherEncoded, otherRead⟩ :=
        Utf8.next_utf8EncodeChar other (utf8 text)
      have otherWhole : utf8 (other :: text) = otherFirst :: (otherOthers ++ utf8 text) := by
        rw [utf8, List.flatMap_cons, otherEncoded]
        rfl
      rw [whole, otherWhole] at same
      obtain ⟨rfl, tails⟩ := List.cons.inj same
      rw [tails, otherRead, Prod.mk.injEq, Option.some.injEq] at read
      rw [read.1]
      exact (List.prefix_cons_inj character).mpr (fronts read.2.symm)

theorem eq_of_leading {front text : List Char} (leading : front <+: text)
    (long : utf8Bytes text ≤ utf8Bytes front) : front = text := by
  obtain ⟨rest, rfl⟩ := leading
  cases rest with
  | nil => rw [List.append_nil]
  | cons character rest =>
    have positive := Char.utf8Size_pos character
    rw [utf8Bytes_append, utf8Bytes] at long
    omega

section Streams

variable (sha256Hex : List UInt8 → String)

/-- All that a preview could show of a stream: its text, or the notice of a binary one. -/
def streamText (bytes : List UInt8) : List Char :=
  if isBinary bytes then (binaryOmitted sha256Hex bytes).toList else Utf8.fromUtf8Lossy bytes

variable {sha256Hex}

/-- What is no binary output is read as it is. -/
theorem utf8_streamText {bytes : List UInt8} (text : isBinary bytes = false) :
    utf8 (streamText sha256Hex bytes) = bytes := by
  rw [streamText, if_neg (Bool.eq_false_iff.mp text)]
  rw [isBinary, Bool.or_eq_false_iff, Option.isNone_eq_false_iff, Option.isSome_iff_exists] at text
  obtain ⟨characters, read⟩ := text.2
  rw [← Utf8.fromUtf8_eq_some_iff.mp read, Utf8.fromUtf8Lossy_utf8]

theorem validEnd_reads (bytes : List UInt8) (fin : Nat) :
    validEnd bytes fin ≤ fin ∧ ∃ text, utf8 text = bytes.take (validEnd bytes fin) := by
  induction fin with
  | zero => exact ⟨Nat.le_refl 0, [], by rw [validEnd, List.take_zero]; rfl⟩
  | succ fin shorter =>
    rw [validEnd]
    split
    · rename_i valid
      obtain ⟨text, read⟩ := Option.isSome_iff_exists.mp valid
      exact ⟨Nat.le_refl _, text, Utf8.fromUtf8_eq_some_iff.mp read⟩
    · exact ⟨Nat.le_succ_of_le shorter.1, shorter.2⟩

/-- What is shown of a stream is the beginning of its text. -/
theorem modelOutput_leading (bytes : List UInt8) (limit : Nat) :
    modelOutput sha256Hex bytes limit <+: streamText sha256Hex bytes := by
  rw [modelOutput]
  split
  · exact List.nil_prefix
  · split
    · rename_i binary
      rw [streamText, if_pos binary]
    · rename_i text
      obtain ⟨shown, read⟩ := (validEnd_reads bytes (min bytes.length limit)).2
      rw [← read, Utf8.fromUtf8Lossy_utf8]
      apply prefix_of_utf8
      rw [read, utf8_streamText (Bool.eq_false_iff.mpr text), List.take_append_drop]

theorem modelOutput_whole {bytes : List UInt8} {limit : Nat}
    (long : bytes.length ≤ utf8Bytes (modelOutput sha256Hex bytes limit)) :
    modelOutput sha256Hex bytes limit = streamText sha256Hex bytes := by
  cases binary : isBinary bytes with
  | false =>
    apply eq_of_leading (modelOutput_leading bytes limit)
    rwa [← Json.length_utf8, utf8_streamText binary]
  | true =>
    rw [modelOutput] at long ⊢
    split
    · rename_i zero
      rw [if_pos zero] at long
      have empty : bytes = [] := List.length_eq_zero_iff.mp (Nat.le_zero.mp long)
      rw [empty] at binary
      cases binary
    · rw [streamText, if_pos binary]

/-! ## The preview -/

/-- The body of an outcome with these texts for its streams. -/
def assembled (outcome : ToolOutcome) (stdout stderr : List Char) : List Char :=
  (processLine outcome).toList ++ stdout ++
    (if stderr.isEmpty then [] else "\n[stderr] ".toList ++ stderr)

/-- The preview is an initial part of the assembled body, with the notice behind it unless nothing
is left out. -/
theorem toolResultBody_cases (sha256Hex : List UInt8 → String) (outcome : ToolOutcome)
    (maxResultBytes : Nat) :
    ∃ stdout stderr, stdout <+: streamText sha256Hex outcome.stdout ∧
      stderr <+: streamText sha256Hex outcome.stderr ∧
      (toolResultBody sha256Hex outcome maxResultBytes =
          previewWithin (maxResultBytes - (utf8Bytes TRUNCATION_NOTICE.toList + 2)) 2
            (assembled outcome stdout stderr) ++ TRUNCATION_NOTICE.toList ∨
        toolResultBody sha256Hex outcome maxResultBytes =
            previewWithin (maxResultBytes - (utf8Bytes TRUNCATION_NOTICE.toList + 2)) 2
              (assembled outcome stdout stderr) ∧
          toolResultBody sha256Hex outcome maxResultBytes =
            assembled outcome (streamText sha256Hex outcome.stdout)
              (streamText sha256Hex outcome.stderr)) := by
  rw [toolResultBody]
  generalize maxResultBytes - (utf8Bytes (processLine outcome).toList +
    utf8Bytes TRUNCATION_NOTICE.toList) = available
  generalize min (min available outcome.stderr.length) (available / 2) = stderrBudget
  generalize maxResultBytes - (utf8Bytes TRUNCATION_NOTICE.toList + 2) = cap
  have stdoutPart := @modelOutput_leading sha256Hex outcome.stdout (available - stderrBudget)
  have stderrPart := @modelOutput_leading sha256Hex outcome.stderr stderrBudget
  have stdoutAll := @modelOutput_whole sha256Hex outcome.stdout (available - stderrBudget)
  have stderrAll := @modelOutput_whole sha256Hex outcome.stderr stderrBudget
  generalize modelOutput sha256Hex outcome.stdout (available - stderrBudget) = stdout
    at stdoutPart stdoutAll ⊢
  generalize modelOutput sha256Hex outcome.stderr stderrBudget = stderr
    at stderrPart stderrAll ⊢
  refine ⟨stdout, stderr, stdoutPart, stderrPart, ?_⟩
  rw [← assembled]
  split
  · exact Or.inl rfl
  · rename_i complete
    rw [not_or, not_or, not_or, Nat.not_lt, Nat.not_lt, Nat.not_lt] at complete
    obtain ⟨⟨stdoutWhole, stderrWhole⟩, bodyWhole, _⟩ := complete
    right
    refine ⟨rfl, ?_⟩
    rw [eq_of_leading (previewWithin_leading cap 2 _) bodyWhole, stdoutAll stdoutWhole,
      stderrAll stderrWhole]

end Streams

theorem notice_bytes :
    escapedBytes TRUNCATION_NOTICE.toList = utf8Bytes TRUNCATION_NOTICE.toList + 2 := by
  decide

theorem previewWithin_bytes {maxResultBytes : Nat}
    (room : utf8Bytes (quote TRUNCATION_NOTICE) ≤ maxResultBytes) (body : List Char) :
    escapedBytes (previewWithin (maxResultBytes - (utf8Bytes TRUNCATION_NOTICE.toList + 2)) 2 body) +
        escapedBytes TRUNCATION_NOTICE.toList + 2 ≤ maxResultBytes := by
  have quoted := quote_bytes TRUNCATION_NOTICE.toList
  rw [String.ofList_toList, notice_bytes] at quoted
  rw [quoted] at room
  have fits : 2 ≤ maxResultBytes - (utf8Bytes TRUNCATION_NOTICE.toList + 2) := by omega
  have costs := previewWithin_costs fits body
  have bytes := escapedBytes_le
    (previewWithin (maxResultBytes - (utf8Bytes TRUNCATION_NOTICE.toList + 2)) 2 body)
  rw [notice_bytes]
  omega

/-- The content that is recorded fits the bound in JSON text. It is the body of an outcome up to a
character, with the notice behind it, or all of the body: text as it is, and binary output by its
size and its digest. -/
theorem recordToolResultWithLimit_bounded (sha256Hex : List UInt8 → String)
    (session : AgentSession) (callId name : String) (outcome : ToolOutcome) (maxResultBytes : Nat)
    (room : utf8Bytes (quote TRUNCATION_NOTICE) ≤ maxResultBytes) :
    let content := toolResultBody sha256Hex outcome maxResultBytes
    (session.recordToolResultWithLimit sha256Hex callId name outcome maxResultBytes).messages =
        session.messages ++ [.toolResult callId name (String.ofList content)] ∧
      utf8Bytes (quote (String.ofList content)) ≤ maxResultBytes ∧
      (∃ stdout stderr kept, stdout <+: streamText sha256Hex outcome.stdout ∧
        stderr <+: streamText sha256Hex outcome.stderr ∧
        kept <+: assembled outcome stdout stderr ∧
        (content = kept ++ TRUNCATION_NOTICE.toList ∨
          content = kept ∧ content = assembled outcome (streamText sha256Hex outcome.stdout)
            (streamText sha256Hex outcome.stderr))) ∧
      (isBinary outcome.stdout = false →
        utf8 (streamText sha256Hex outcome.stdout) = outcome.stdout) ∧
      (isBinary outcome.stderr = false →
        utf8 (streamText sha256Hex outcome.stderr) = outcome.stderr) := by
  obtain ⟨stdout, stderr, stdoutPart, stderrPart, shown⟩ :=
    toolResultBody_cases sha256Hex outcome maxResultBytes
  have fits := previewWithin_bytes room (assembled outcome stdout stderr)
  have part := previewWithin_leading
    (maxResultBytes - (utf8Bytes TRUNCATION_NOTICE.toList + 2)) 2 (assembled outcome stdout stderr)
  refine ⟨rfl, ?_, ⟨stdout, stderr, _, stdoutPart, stderrPart, part, shown⟩, utf8_streamText,
    utf8_streamText⟩
  rw [quote_bytes]
  cases shown with
  | inl cut =>
    rw [cut, escapedBytes_append]
    exact fits
  | inr whole =>
    rw [whole.1]
    omega

def zeroByte : ToolOutcome where
  exited := true
  status := some 0
  stdout := [0]
  stderr := []
  timedOut := false
  outputLimitExceeded := false
  cancelled := false

/-- The digest of the one byte. -/
def zeroByteSha256 (bytes : List UInt8) : String :=
  if bytes = [0] then "6e340b9cffb37a989ca544e6bb780a2c78901d3fb33738768511a30617afa01d"
  else String.ofList (bytes.map fun byte => Char.ofNat byte.toNat)

theorem recordToolResultWithLimit_bounded_zeroByte :
    let session := AgentSession.new "model" .medium [] ""
    let content := toolResultBody zeroByteSha256 zeroByte 8192
    (session.recordToolResultWithLimit zeroByteSha256 "call-0" "probe" zeroByte 8192).messages =
        session.messages ++ [.toolResult "call-0" "probe" (String.ofList content)] ∧
      utf8Bytes (quote (String.ofList content)) ≤ 8192 ∧
      (∃ stdout stderr kept, stdout <+: streamText zeroByteSha256 zeroByte.stdout ∧
        stderr <+: streamText zeroByteSha256 zeroByte.stderr ∧
        kept <+: assembled zeroByte stdout stderr ∧
        (content = kept ++ TRUNCATION_NOTICE.toList ∨
          content = kept ∧ content = assembled zeroByte (streamText zeroByteSha256 zeroByte.stdout)
            (streamText zeroByteSha256 zeroByte.stderr))) ∧
      (isBinary zeroByte.stdout = false →
        utf8 (streamText zeroByteSha256 zeroByte.stdout) = zeroByte.stdout) ∧
      (isBinary zeroByte.stderr = false →
        utf8 (streamText zeroByteSha256 zeroByte.stderr) = zeroByte.stderr) :=
  recordToolResultWithLimit_bounded zeroByteSha256 (AgentSession.new "model" .medium [] "")
    "call-0" "probe" zeroByte 8192 (by decide)

/-- Binary output that is short is named without a notice, and its byte stands nowhere. -/
theorem zeroByte_unshown :
    toolResultBody zeroByteSha256 zeroByte 8192 =
        ("[process: exited=true, status=Some(0), timed_out=false, cancelled=false, " ++
          "output_limit_exceeded=false]\n[binary output omitted: 1 bytes; sha256:" ++
          "6e340b9cffb37a989ca544e6bb780a2c78901d3fb33738768511a30617afa01d]").toList ∧
      ¬TRUNCATION_NOTICE.toList <:+: toolResultBody zeroByteSha256 zeroByte 8192 ∧
      Char.ofNat 0 ∉ toolResultBody zeroByteSha256 zeroByte 8192 := by
  have body : toolResultBody zeroByteSha256 zeroByte 8192 =
      ("[process: exited=true, status=Some(0), timed_out=false, cancelled=false, " ++
        "output_limit_exceeded=false]\n[binary output omitted: 1 bytes; sha256:" ++
        "6e340b9cffb37a989ca544e6bb780a2c78901d3fb33738768511a30617afa01d]").toList := by
    rw [String.toList_append, String.toList_append]
    repeat rw [String.toList_ofList]
    decide +kernel
  have spelled : ((toolResultBody zeroByteSha256 zeroByte 8192).all fun character =>
      character ≠ '/' && character ≠ Char.ofNat 0) = true := by
    rw [body, String.toList_append, String.toList_append]
    repeat rw [String.toList_ofList]
    decide +kernel
  simp only [List.all_eq_true, Bool.and_eq_true, decide_eq_true_iff] at spelled
  refine ⟨body, ?_, ?_⟩
  · intro inside
    exact (spelled '/' (inside.subset (by decide))).1 rfl
  · exact fun member => (spelled _ member).2 rfl

end Kvist.Runtime
