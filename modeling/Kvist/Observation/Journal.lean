import Kvist.Json.Bytes

/-!
# The run journal

A run writes its events as lines of JSON, each in a numbered record. A file that is nearly full
ends with a link to the next one. Writing to an open file is taken to succeed: a failed write
poisons the journal, and nothing is added to it again.
-/

set_option autoImplicit false

namespace Kvist.Observation

open Json (Value)

def maxRecordBytes : Nat := 64 * 1024

def maxJournalBytes : Nat := 64 * 1024 * 1024

def maxU64 : Nat := 18446744073709551615

def checkedAdd (first second : Nat) : Option Nat :=
  if first + second ≤ maxU64 then some (first + second) else none

def saturatingAdd (first second : Nat) : Nat := min (first + second) maxU64

def identifier (value : String) : Bool :=
  !value.toList.isEmpty && Json.utf8Bytes value.toList ≤ 128 &&
    value.toList.all fun character =>
      character.isAlphanum || character == '-' || character == '_' || character == '.' ||
        character == ':'

structure JournalRecord where
  schemaVersion : Nat
  runId : String
  sequence : Nat
  event : Value

namespace JournalRecord

def toJson (record : JournalRecord) : Value :=
  .object [("schema_version", Json.natural record.schemaVersion), ("run_id", .string record.runId),
    ("sequence", Json.natural record.sequence), ("event", record.event)]

/-- The line of the record in its file. -/
def line (record : JournalRecord) : List UInt8 := Json.encode record.toJson ++ [Json.newline]

end JournalRecord

def eventType (event : Value) : Option String := (event.get? "type").bind Value.asStr?

def validateEvent (event : Value) : Except String Unit :=
  if event.isObject && (eventType event).any fun kind =>
      identifier kind && Json.utf8Bytes kind.toList ≤ 64 then .ok ()
  else .error "journal event must be an object with a bounded type"

def runStart (metadata : Value) : Value := .object [("type", .string "run_start"), ("data", metadata)]

def journalSegment (index : Nat) : Value :=
  .object [("type", .string "journal_segment"), ("data", .object [("index", Json.natural index)])]

def runEnd (disposition : String) : Value :=
  .object [("type", .string "run_end"), ("data", .object [("disposition", .string disposition)])]

def reserved (event : Value) : Bool :=
  (eventType event).any fun kind =>
    kind == "run_start" || kind == "run_end" || kind == "journal_segment"

def encodeBounded (value : Value) : Except String (List UInt8) :=
  if (Json.encode value).length < maxRecordBytes then .ok (Json.encode value)
  else .error "event is not serializable within the 65536-byte record bound"

def encodeRecord (runId : String) (sequence : Nat) (event : Value) : Except String (List UInt8) :=
  match encodeBounded (JournalRecord.toJson ⟨1, runId, sequence, event⟩) with
  | .error message => .error message
  | .ok bytes => .ok (bytes ++ [Json.newline])

/-- The writer, with the files it has left in `closed` and the file it writes to. -/
structure RunJournal where
  closed : List (List UInt8)
  file : List UInt8
  segment : Nat
  runId : String
  sequence : Nat
  bytes : Nat
  finished : Bool
  poisoned : Bool

namespace RunJournal

def files (journal : RunJournal) : List (List UInt8) := journal.closed ++ [journal.file]

def writeRecord (journal : RunJournal) (bytes : List UInt8) (sequence : Nat) :
    Except String RunJournal :=
  if journal.bytes + bytes.length > maxJournalBytes then
    .error "live journal exceeds its record or total byte limit"
  else
    .ok { journal with
      file := journal.file ++ bytes
      sequence := sequence
      bytes := journal.bytes + bytes.length }

def create (runId : String) (metadata : Value) : Except String RunJournal :=
  if !identifier runId || !metadata.isObject then
    .error "run ID must be a bounded identifier and metadata an object"
  else
    match encodeRecord runId 1 (runStart metadata) with
    | .error message => .error message
    | .ok initial => writeRecord ⟨[], [], 0, runId, 0, 0, false, false⟩ initial 1

def rotate (journal : RunJournal) : Except String RunJournal :=
  match checkedAdd journal.segment 1 with
  | none => .error "journal segment index exhausted"
  | some segment =>
      match checkedAdd journal.sequence 1 with
      | none => .error "journal sequence exhausted"
      | some sequence =>
          match encodeRecord journal.runId sequence (journalSegment segment) with
          | .error message => .error message
          | .ok link =>
              match journal.writeRecord link sequence with
              | .error message => .error message
              | .ok linked =>
                  .ok { linked with
                    closed := linked.closed ++ [linked.file]
                    file := []
                    segment := segment
                    bytes := 0 }

/-- The record goes to the file at hand. -/
def appendHere (journal : RunJournal) (event : Value) : Except String Unit × RunJournal :=
  match checkedAdd journal.sequence 1 with
  | none => (.error "journal sequence exhausted", journal)
  | some sequence =>
      match encodeRecord journal.runId sequence event with
      | .error message => (.error message, journal)
      | .ok bytes =>
          match journal.writeRecord bytes sequence with
          | .error message => (.error message, journal)
          | .ok written => (.ok (), written)

def append (journal : RunJournal) (event : Value) : Except String Unit × RunJournal :=
  if journal.finished || journal.poisoned then
    (.error "journal is terminal or failed; no further records are allowed", journal)
  else
    match checkedAdd journal.sequence 1 with
    | none => (.error "journal sequence exhausted", journal)
    | some sequence =>
        match encodeRecord journal.runId sequence event with
        | .error message => (.error message, journal)
        | .ok bytes =>
            if journal.bytes + bytes.length + maxRecordBytes > maxJournalBytes then
              match journal.rotate with
              | .error message => (.error message, { journal with poisoned := true })
              | .ok rotated => rotated.appendHere event
            else journal.appendHere event

/-- An application event: it has to be readable, and of a type that the journal does not use. -/
def record (fromSlice : List UInt8 → Option Value) (journal : RunJournal) (event : Value) :
    Except String Unit × RunJournal :=
  match encodeBounded event with
  | .error message => (.error message, journal)
  | .ok encoded =>
      match fromSlice encoded with
      | none => (.error "event cannot be parsed within the JSON nesting bound", journal)
      | some event =>
          match validateEvent event with
          | .error message => (.error message, journal)
          | .ok () =>
              if reserved event then
                (.error "run lifecycle event is reserved for the journal owner", journal)
              else journal.append event

def finish (journal : RunJournal) (disposition : String) : Except String Unit × RunJournal :=
  if !identifier disposition || 64 < Json.utf8Bytes disposition.toList then
    (.error "terminal disposition must be a bounded identifier", journal)
  else
    match journal.append (runEnd disposition) with
    | (.error message, journal) => (.error message, journal)
    | (.ok (), journal) =>
        if journal.poisoned then
          (.error "journal failed previously; no further effects are safe", journal)
        else (.ok (), { journal with finished := true })

/-- The events that are accepted when these are recorded in turn, and the journal after them. -/
def recordAll (fromSlice : List UInt8 → Option Value) :
    RunJournal → List Value → List Value × RunJournal
  | journal, [] => ([], journal)
  | journal, event :: rest =>
      match journal.record fromSlice event with
      | (.error _, next) => recordAll fromSlice next rest
      | (.ok (), next) =>
          let later := recordAll fromSlice next rest
          (event :: later.1, later.2)

/-- The accepted events and the journal of a whole run that is created and finished. -/
def wholeRun (fromSlice : List UInt8 → Option Value) (runId : String) (metadata : Value)
    (events : List Value) (disposition : String) : Option (List Value × RunJournal) :=
  match create runId metadata with
  | .error _ => none
  | .ok journal =>
      match (recordAll fromSlice journal events).2.finish disposition with
      | (.error _, _) => none
      | (.ok (), finished) => some ((recordAll fromSlice journal events).1, finished)

end RunJournal

end Kvist.Observation
