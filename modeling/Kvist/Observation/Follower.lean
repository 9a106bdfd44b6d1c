import Std.Data.String.ToNat
import Kvist.Observation.Journal

/-!
# The journal follower

A follower reads the files of a journal piece by piece, keeps the beginning of a line until its
end is there, and goes to the next file behind a link.
-/

set_option autoImplicit false

namespace Kvist.Json.Value

def asNatural? (bound : Nat) : Value → Option Nat
  | .number literal => literal.toNat?.filter (· ≤ bound)
  | _ => none

end Kvist.Json.Value

namespace Kvist.Observation

open Json (Value)

def maxPollRecords : Nat := 256

def maxU32 : Nat := 4294967295

def JournalRecord.fromJson (value : Value) : Option JournalRecord :=
  match value with
  | .object members =>
      if members.length = 4 then
        (value.get? "schema_version").bind (Value.asNatural? maxU32) |>.bind fun schemaVersion =>
          (value.get? "run_id").bind Value.asStr? |>.bind fun runId =>
            (value.get? "sequence").bind (Value.asNatural? maxU64) |>.bind fun sequence =>
              (value.get? "event").map fun event => ⟨schemaVersion, runId, sequence, event⟩
      else none
  | _ => none

/-- The follower, with the bytes of its file that it has not read yet in `reader`. -/
structure JournalFollower where
  reader : List UInt8
  segment : Nat
  nextSegment : Bool
  pending : List UInt8
  runId : Option String
  sequence : Nat
  bytes : Nat
  finished : Bool
  failed : Bool

def continuationIndex (event : Value) : Option Nat :=
  match event.get? "data" with
  | some (.object [("index", index)]) => index.asNatural? maxU64
  | _ => none

def terminalDisposition (event : Value) : Bool :=
  (((event.get? "data").bind (·.get? "disposition")).bind Value.asStr?).any fun value =>
    identifier value && Json.utf8Bytes value.toList ≤ 64

namespace JournalFollower

variable (fromSlice : List UInt8 → Option Value) (files : List (List UInt8))

def «open» : Except String JournalFollower :=
  match files[0]? with
  | none => .error "open journal"
  | some file => .ok ⟨file, 0, false, [], none, 0, 0, false, false⟩

/-- A whole line has been read. -/
def accept (follower : JournalFollower) : Except String (JournalRecord × JournalFollower) :=
  match (fromSlice follower.pending).bind JournalRecord.fromJson with
  | none => .error "journal record is malformed"
  | some record =>
      match validateEvent record.event with
      | .error message => .error message
      | .ok () =>
          if record.schemaVersion ≠ 1 || !identifier record.runId ||
              record.sequence ≠ saturatingAdd follower.sequence 1 ||
              follower.runId.any (· != record.runId) then
            .error "journal version, run identity or sequence is invalid"
          else if (follower.sequence = 0 && eventType record.event != some "run_start") ||
              (0 < follower.sequence && eventType record.event == some "run_start") then
            .error "journal must begin with exactly one run_start"
          else
            let followed := { follower with
              pending := []
              runId := some (follower.runId.getD record.runId)
              sequence := record.sequence
              finished := eventType record.event == some "run_end" }
            if eventType record.event == some "journal_segment" then
              match checkedAdd follower.segment 1 with
              | none => .error "journal segment index exhausted"
              | some expected =>
                  if continuationIndex record.event ≠ some expected then
                    .error "journal continuation index is invalid"
                  else .ok (record, { followed with segment := expected, nextSegment := true })
            else if followed.finished && !terminalDisposition record.event then
              .error "journal terminal disposition is invalid"
            else .ok (record, followed)

/-- The file behind a link is opened, as long as nothing stands behind the link. -/
def continued (follower : JournalFollower) (size : Nat) : Except String JournalFollower :=
  if !follower.nextSegment then .ok follower
  else if !(follower.reader.take size).isEmpty then
    .error "journal segment contains data after its continuation"
  else
    match files[follower.segment]? with
    | none => .error "open journal segment"
    | some file => .ok { follower with reader := file, bytes := 0, nextSegment := false }

/-- What is visible is read, up to the end of a line; the record is there if its line is. -/
def consume (follower : JournalFollower) (available : List UInt8) :
    Except String (Option JournalRecord × JournalFollower) :=
  let newline := available.idxOf? Json.newline
  let count := newline.elim available.length (· + 1)
  if follower.pending.length + count > maxRecordBytes ||
      follower.bytes + count > maxJournalBytes then
    .error "live journal exceeds its record or total byte limit"
  else
    let read := { follower with
      pending := follower.pending ++ available.take count
      reader := follower.reader.drop count
      bytes := follower.bytes + count }
    match newline with
    | none => .ok (none, read)
    | some _ =>
        match read.accept fromSlice with
        | .error message => .error message
        | .ok (record, next) => .ok (some record, next)

/-- The loop of a poll. Each of the sizes bounds what one read makes visible: nothing is there to
be read where it is zero, and after the last of them. -/
def readAvailable : JournalFollower → List Nat → List JournalRecord →
    Except String (List JournalRecord × JournalFollower)
  | follower, [], records =>
      if !(records.length < maxPollRecords || follower.finished) then .ok (records, follower)
      else
        match follower.continued files 0 with
        | .error message => .error message
        | .ok follower => .ok (records, follower)
  | follower, size :: sizes, records =>
      if !(records.length < maxPollRecords || follower.finished) then .ok (records, follower)
      else
        match follower.continued files size with
        | .error message => .error message
        | .ok follower =>
            if (follower.reader.take size).isEmpty then .ok (records, follower)
            else if follower.finished then .error "journal contains data after its terminal event"
            else
              match follower.consume fromSlice (follower.reader.take size) with
              | .error message => .error message
              | .ok (record, next) => readAvailable next sizes (records ++ record.toList)

def poll (follower : JournalFollower) (sizes : List Nat) :
    Except String (List JournalRecord) × JournalFollower :=
  if follower.failed then (.error "journal follower failed previously", follower)
  else
    match follower.readAvailable fromSlice files sizes [] with
    | .error message => (.error message, { follower with failed := true })
    | .ok (records, next) => (.ok records, next)

def endOfInput (follower : JournalFollower) : Except String Unit :=
  if follower.failed then .error "journal follower failed previously"
  else if !follower.pending.isEmpty then .error "journal ends with an incomplete record"
  else if !follower.finished then
    .error "journal has no terminal disposition; effects may be unknown"
  else .ok ()

/-- The records of a number of polls, as long as none of them fails. -/
def polls : JournalFollower → List (List Nat) → Except String (List JournalRecord × JournalFollower)
  | follower, [] => .ok ([], follower)
  | follower, sizes :: rest =>
      match follower.poll fromSlice files sizes with
      | (.error message, _) => .error message
      | (.ok records, next) =>
          match polls next rest with
          | .error message => .error message
          | .ok (later, last) => .ok (records ++ later, last)

end JournalFollower

end Kvist.Observation
